import Robinarb.Contracts.ArbExecutor
import Robinarb.Library.CallStack

/-! # Calls as interactions

A function of the contract is run by every handler, and so is an interaction: requests
and what the contract does between them. Each function runs like exactly one
interaction, which says what the contract asks for, in which world, whatever answers.
-/

namespace Robinarb.ArbExecutor

open CallStack

abbrev Interaction (α : Type) := Process World Request (List U256) Revert α

/-- A function of the contract, for every handler of its requests. -/
abbrev Code (α : Type) := (E : Type) → Handler E → Exec E α

section Play

variable {E α β : Type}

def play (ext : Handler E) : Interaction α → E → Except Revert (α × State E)
  | .done w a, e => .ok (a, ⟨w, e⟩)
  | .failed reason, _ => .error reason
  | .asks w request resume, e =>
    ext request ⟨w, e⟩ >>= fun r => play ext (resume r.2.world r.1) r.2.env

def Represents (p : World → Interaction α) (x : Code α) : Prop :=
  ∀ E (ext : Handler E) st, x E ext st = play ext (p st.world) st.env

theorem play_bind (ext : Handler E) (p : Interaction α) (f : α → World → Interaction β) (e : E) :
    play ext (p.bind f) e = play ext p e >>= fun r => play ext (f r.1 r.2.world) r.2.env := by
  induction p generalizing e with
  | done w a => rfl
  | failed reason => rfl
  | asks w request resume ih =>
    have hRest : ∀ r : List U256 × State E, play ext ((resume r.2.world r.1).bind f) r.2.env =
        play ext (resume r.2.world r.1) r.2.env >>= fun r => play ext (f r.1 r.2.world) r.2.env :=
      fun r => ih r.2.world r.1 r.2.env
    change (ext request ⟨w, e⟩ >>= fun r => play ext ((resume r.2.world r.1).bind f) r.2.env) =
      (ext request ⟨w, e⟩ >>= fun r => play ext (resume r.2.world r.1) r.2.env) >>= _
    rw [funext hRest]
    cases ext request ⟨w, e⟩ <;> rfl

/-- Fails at the first request, for a reason that may depend on the request and the world. -/
def failing (reason : Request → World → Revert) : Handler Unit :=
  fun request st => .error (reason request st.world)

/-- Answers the first request with a world and a reply, and the others like `ext`. -/
def afterFirst (ext : Handler E) (w : World) (reply : List U256) : Handler (Bool × E) := fun request st =>
  if st.env.1 then
    (ext request ⟨st.world, st.env.2⟩).map fun r => (r.1, ⟨r.2.world, (true, r.2.env)⟩)
  else .ok (reply, ⟨w, (true, st.env.2)⟩)

theorem play_afterFirst (ext : Handler E) (w : World) (reply : List U256) (p : Interaction α) (e : E) :
    play (afterFirst ext w reply) p (true, e) =
      (play ext p e).map fun r => (r.1, ⟨r.2.world, (true, r.2.env)⟩) := by
  induction p generalizing e with
  | done w' a => rfl
  | failed reason => rfl
  | asks w' request resume ih =>
    simp only [play, afterFirst, if_true]
    cases ext request ⟨w', e⟩ with
    | error reason => rfl
    | ok r => exact ih r.2.world r.1 r.2.env

theorem play_failing_asks (reason : Request → World → Revert) (w : World) (request : Request)
    (resume : World → List U256 → Interaction α) :
    play (failing reason) (.asks w request resume) () = .error (reason request w) := rfl

theorem asks_inj {w w' : World} {request request' : Request}
    (hSame : ∀ reason : Request → World → Revert, reason request w = reason request' w') :
    w = w' ∧ request = request' := by
  classical
  have hMarked := hSame fun r v => if w = v ∧ request = r then .notOwner else .notExecutor
  rw [if_pos ⟨rfl, rfl⟩] at hMarked
  split at hMarked
  next hBoth => exact hBoth
  · cases hMarked

theorem map_mark_inj {r r' : Except Revert (α × State E)}
    (hMapped : r.map (fun r => (r.1, (⟨r.2.world, (true, r.2.env)⟩ : State (Bool × E)))) =
      r'.map fun r => (r.1, ⟨r.2.world, (true, r.2.env)⟩)) : r = r' := by
  cases r with
  | error reason =>
    cases r' with
    | error reason' =>
      cases hMapped
      rfl
    | ok r' => cases hMapped
  | ok r =>
    cases r' with
    | error reason' => cases hMapped
    | ok r' =>
      have hBoth := Prod.ext_iff.mp (Except.ok.inj hMapped)
      obtain ⟨hWorld, hEnv⟩ := State.mk.inj hBoth.2
      have hState : r.2 = r'.2 := congrArg₂ State.mk hWorld (Prod.ext_iff.mp hEnv).2
      exact congrArg Except.ok (Prod.ext hBoth.1 hState)

theorem play_inj {p q : Interaction α}
    (hSame : ∀ (E : Type) (ext : Handler E) (e : E), play ext p e = play ext q e) : p = q := by
  have hFailing : ∀ reason : Request → World → Revert,
      play (failing reason) p () = play (failing reason) q () := fun reason => hSame Unit (failing reason) ()
  induction p generalizing q with
  | done w a =>
    cases q with
    | done w' a' =>
      cases hFailing fun _ _ => .foreign
      rfl
    | failed reason' => cases hFailing fun _ _ => .foreign
    | asks w' request' resume' => cases hFailing fun _ _ => .foreign
  | failed reason =>
    cases q with
    | done w' a' => cases hFailing fun _ _ => .foreign
    | failed reason' =>
      cases hFailing fun _ _ => .foreign
      rfl
    | asks w' request' resume' =>
      have hPanic := (hFailing fun _ _ => .panic).trans (play_failing_asks _ w' request' resume')
      cases (hFailing fun _ _ => .foreign).symm.trans hPanic
  | asks w request resume ih =>
    cases q with
    | done w' a' => cases hFailing fun _ _ => .foreign
    | failed reason' =>
      have hPanic := (play_failing_asks _ w request resume).symm.trans (hFailing fun _ _ => .panic)
      cases hPanic.trans (hFailing fun _ _ => .foreign).symm
    | asks w' request' resume' =>
      obtain ⟨rfl, rfl⟩ := asks_inj fun reason => Except.error.inj (hFailing reason)
      congr
      funext v reply
      have hRest : ∀ (E : Type) (ext : Handler E) (e : E),
          play ext (resume v reply) e = play ext (resume' v reply) e := by
        intro E ext e
        have hLater := hSame (Bool × E) (afterFirst ext v reply) (false, e)
        have hMapped : play (afterFirst ext v reply) (resume v reply) (true, e) =
            play (afterFirst ext v reply) (resume' v reply) (true, e) := hLater
        rw [play_afterFirst, play_afterFirst] at hMapped
        exact map_mark_inj hMapped
      exact ih v reply hRest fun reason => hRest Unit (failing reason) ()

theorem Represents.unique {p q : World → Interaction α} {x : Code α} (hp : Represents p x)
    (hq : Represents q x) : p = q := by
  funext w
  apply play_inj
  intro E ext e
  exact (hp E ext ⟨w, e⟩).symm.trans (hq E ext ⟨w, e⟩)

end Play

/-- From a world in `P`, a function asks only where `Ask` allows it and ends in `Q`. -/
def Does {α : Type} (Ask : Request → World → Prop) (P : World → Prop) (x : Code α)
    (Q : α → World → Prop) : Prop :=
  ∃ p, Represents p x ∧ ∀ w, P w → (p w).Safe Ask Q

section Rules

variable {α β : Type} {Ask : Request → World → Prop} {P : World → Prop} {Q : α → World → Prop}

theorem Does.mono {x : Code α} {P' : World → Prop} {Q' : α → World → Prop} (hDoes : Does Ask P x Q)
    (hStart : ∀ w, P' w → P w) (hEnd : ∀ a w, Q a w → Q' a w) : Does Ask P' x Q' := by
  obtain ⟨p, hp, hSafe⟩ := hDoes
  exact ⟨p, hp, fun w hw => (hSafe w (hStart w hw)).mono hEnd⟩

theorem Does.bind {x : Code α} {f : α → Code β} {R : β → World → Prop} (hFirst : Does Ask P x Q)
    (hNext : ∀ a, Does Ask (Q a) (f a) R) : Does Ask P (fun E ext => x E ext >>= fun a => f a E ext) R := by
  obtain ⟨p, hp, hSafe⟩ := hFirst
  choose q hq hSafe' using hNext
  refine ⟨fun w => (p w).bind q, ?_, fun w hw => (hSafe w hw).bind hSafe'⟩
  intro E ext st
  have hRest : ∀ r : α × State E, f r.1 E ext r.2 = play ext (q r.1 r.2.world) r.2.env :=
    fun r => hq r.1 E ext r.2
  calc (x E ext >>= fun a => f a E ext) st
      = x E ext st >>= fun r => f r.1 E ext r.2 := rfl
    _ = play ext (p st.world) st.env >>= fun r => play ext (q r.1 r.2.world) r.2.env := by
      rw [hp]
      exact congrArg _ (funext hRest)
    _ = play ext ((p st.world).bind q) st.env := (play_bind ext (p st.world) q st.env).symm

theorem Does.pure {a : α} (hEnd : ∀ w, P w → Q a w) : Does Ask P (fun _ _ => pure a) Q :=
  ⟨fun w => .done w a, fun _ _ _ => rfl, hEnd⟩

theorem Does.revert {reason : Revert} : Does Ask P (fun _ _ => revert reason) Q :=
  ⟨fun _ => .failed reason, fun _ _ _ => rfl, fun _ _ => trivial⟩

theorem Does.getWorld : Does Ask P (fun _ _ => getWorld) fun w' w => w' = w ∧ P w :=
  ⟨fun w => .done w w, fun _ _ _ => rfl, fun _ hw => ⟨rfl, hw⟩⟩

theorem Does.setWorld {f : World → World} {Q : Unit → World → Prop} (hEnd : ∀ w, P w → Q () (f w)) :
    Does Ask P (fun _ _ => setWorld f) Q :=
  ⟨fun w => .done (f w) (), fun _ _ _ => rfl, hEnd⟩

theorem Does.request {request : Request} {R : World → Prop} (hAsk : ∀ w, P w → Ask request w)
    (hReply : ∀ w w', P w → Ask request w' → R w') :
    Does Ask P (fun _ ext => ext request) fun _ => R := by
  refine ⟨fun w => .asks w request .done, ?_, fun w hw => ⟨hAsk w hw, fun w' _ => hReply w w' hw⟩⟩
  intro E ext st
  change ext request st = ext request st >>= fun r => .ok (r.1, ⟨r.2.world, r.2.env⟩)
  cases ext request st <;> rfl

theorem Does.require {condition : Bool} {reason : Revert} :
    Does Ask P (fun _ _ => require condition reason) fun _ w => condition = true ∧ P w := by
  cases condition with
  | false => exact Does.revert
  | true => exact Does.pure fun w hw => ⟨rfl, hw⟩

end Rules

end Robinarb.ArbExecutor
