import Mathlib.Logic.Relation

/-! # Call stacks of a program among strangers

A program runs on a world and asks for things outside itself. While it waits, the world
is in the hands of others, who may change it, call the program again, and take back
what they did. A call that fails leaves no trace. What every call keeps, with the
requests it has pending, holds of every stack that is reached.
-/

namespace CallStack

variable {W ρ ε : Type} {α β : Type}

/-- A program from one request to the next. What comes back finds the world changed. -/
inductive Process (W ρ σ ε α : Type) where
  | done (world : W) (value : α)
  | failed (reason : ε)
  | asks (world : W) (request : ρ) (resume : W → σ → Process W ρ σ ε α)

section Processes

variable {σ : Type}

def Process.bind (p : Process W ρ σ ε α) (f : α → W → Process W ρ σ ε β) : Process W ρ σ ε β :=
  match p with
  | .done w a => f a w
  | .failed reason => .failed reason
  | .asks w request resume => .asks w request fun w' reply => (resume w' reply).bind f

/-- Every request is made where `Ask` allows it, and every end is where `Done` does, as
long as each reply comes in a world that `Ask` allows the request in. -/
def Process.Safe (Ask : ρ → W → Prop) (Done : α → W → Prop) : Process W ρ σ ε α → Prop
  | .done w a => Done a w
  | .failed _ => True
  | .asks w request resume =>
    Ask request w ∧ ∀ w' reply, Ask request w' → (resume w' reply).Safe Ask Done

theorem Process.Safe.bind {Ask : ρ → W → Prop} {Middle : α → W → Prop} {Done : β → W → Prop}
    {p : Process W ρ σ ε α} {f : α → W → Process W ρ σ ε β} (hFirst : p.Safe Ask Middle)
    (hNext : ∀ a w, Middle a w → (f a w).Safe Ask Done) : (p.bind f).Safe Ask Done := by
  induction p with
  | done w a => exact hNext a w hFirst
  | failed reason => trivial
  | asks w request resume ih =>
    refine ⟨hFirst.1, fun w' reply hReply => ?_⟩
    exact ih w' reply (hFirst.2 w' reply hReply)

theorem Process.Safe.mono {Ask : ρ → W → Prop} {Done Weaker : α → W → Prop} {p : Process W ρ σ ε α}
    (hSafe : p.Safe Ask Done) (hDone : ∀ a w, Done a w → Weaker a w) : p.Safe Ask Weaker := by
  induction p with
  | done w a => exact hDone a w hSafe
  | failed reason => trivial
  | asks w request resume ih =>
    refine ⟨hSafe.1, fun w' reply hReply => ?_⟩
    exact ih w' reply (hSafe.2 w' reply hReply)

end Processes

section Stacks

variable {ι σ : Type}

/-- A call that waits: what it started from, what its callers can go back to, and how
it goes on. -/
structure Frame (ι W ρ σ ε : Type) where
  label : ι
  entry : W
  saved : List W
  request : ρ
  resume : W → σ → Process W ρ σ ε σ

/-- The waiting calls, innermost first, and the worlds that can be gone back to since the
innermost began to wait. -/
structure Config (ι W ρ σ ε : Type) where
  frames : List (Frame ι W ρ σ ε)
  world : W
  saved : List W

def pending (frames : List (Frame ι W ρ σ ε)) : List (ι × ρ) :=
  frames.map fun frame => (frame.label, frame.request)

/-- A call goes on until it ends or waits. -/
def proceed (frames : List (Frame ι W ρ σ ε)) (label : ι) (entry : W) (saved : List W) :
    Process W ρ σ ε σ → Config ι W ρ σ ε
  | .done w _ => ⟨frames, w, saved⟩
  | .failed _ => ⟨frames, entry, saved⟩
  | .asks w request resume => ⟨⟨label, entry, saved, request, resume⟩ :: frames, w, []⟩

variable (program : ι → W → Process W ρ σ ε σ) (elsewhere : List (ι × ρ) → W → W → Prop)
  (allowed : ι → Prop)

inductive Step : Config ι W ρ σ ε → Config ι W ρ σ ε → Prop where
  | change {frames world saved} (world' : W) :
    elsewhere (pending frames) world world' → Step ⟨frames, world, saved⟩ ⟨frames, world', saved⟩
  | save {frames world saved} : Step ⟨frames, world, saved⟩ ⟨frames, world, world :: saved⟩
  | goBack {frames world saved} (old : W) :
    old ∈ saved → Step ⟨frames, world, saved⟩ ⟨frames, old, saved⟩
  | call {frames world saved} (label : ι) :
    allowed label →
      Step ⟨frames, world, saved⟩ (proceed frames label world saved (program label world))
  | answer {frame frames world saved} (reply : σ) :
    Step ⟨frame :: frames, world, saved⟩
      (proceed frames frame.label frame.entry frame.saved (frame.resume world reply))
  | refuse {frame frames world saved} :
    Step ⟨frame :: frames, world, saved⟩ ⟨frames, frame.entry, frame.saved⟩

/-- The configurations that come about from a world nobody waits in. -/
def Reaches (start : W) (config : Config ι W ρ σ ε) : Prop :=
  Relation.ReflTransGen (Step program elsewhere allowed) ⟨[], start, []⟩ config

variable {program elsewhere allowed} (Inv : List (ι × ρ) → W → Prop)

/-- The invariant of the worlds a waiting call holds on to, and of what it does once it
is answered. -/
def FramesKeep : List (Frame ι W ρ σ ε) → Prop
  | [] => True
  | frame :: rest =>
    (∀ w ∈ frame.entry :: frame.saved, Inv (pending rest) w) ∧
      (∀ w reply, Inv (pending (frame :: rest)) w →
        (frame.resume w reply).Safe (fun request => Inv ((frame.label, request) :: pending rest))
          fun _ => Inv (pending rest)) ∧
      FramesKeep rest

structure Keeps (config : Config ι W ρ σ ε) : Prop where
  worlds : ∀ w ∈ config.world :: config.saved, Inv (pending config.frames) w
  frames : FramesKeep Inv config.frames

variable {Inv}

theorem proceed_keeps {frames : List (Frame ι W ρ σ ε)} {label : ι} {entry : W} {saved : List W}
    {p : Process W ρ σ ε σ} (hWorlds : ∀ w ∈ entry :: saved, Inv (pending frames) w)
    (hFrames : FramesKeep Inv frames)
    (hSafe : p.Safe (fun request => Inv ((label, request) :: pending frames)) fun _ => Inv (pending frames)) :
    Keeps Inv (proceed frames label entry saved p) := by
  have hSaved : ∀ w ∈ saved, Inv (pending frames) w := fun w hw => hWorlds w (List.mem_cons_of_mem _ hw)
  cases p with
  | done w reply => exact ⟨List.forall_mem_cons.mpr ⟨hSafe, hSaved⟩, hFrames⟩
  | failed reason => exact ⟨hWorlds, hFrames⟩
  | asks w request resume =>
    refine ⟨?_, hWorlds, hSafe.2, hFrames⟩
    rintro _ (_ | ⟨_, ⟨⟩⟩)
    exact hSafe.1

theorem Step.keeps
    (hElsewhere : ∀ stack w w', elsewhere stack w w' → Inv stack w → Inv stack w')
    (hCall : ∀ stack label w, allowed label → Inv stack w →
      (program label w).Safe (fun request => Inv ((label, request) :: stack)) fun _ => Inv stack)
    {c c' : Config ι W ρ σ ε} (hStep : Step program elsewhere allowed c c') (hKeeps : Keeps Inv c) :
    Keeps Inv c' := by
  have hNow : Inv (pending c.frames) c.world := hKeeps.worlds _ List.mem_cons_self
  have hSaved : ∀ w ∈ c.saved, Inv (pending c.frames) w :=
    fun w hw => hKeeps.worlds w (List.mem_cons_of_mem _ hw)
  cases hStep with
  | change world' hChange =>
    exact ⟨List.forall_mem_cons.mpr ⟨hElsewhere _ _ _ hChange hNow, hSaved⟩, hKeeps.frames⟩
  | save => exact ⟨List.forall_mem_cons.mpr ⟨hNow, hKeeps.worlds⟩, hKeeps.frames⟩
  | goBack old hOld => exact ⟨List.forall_mem_cons.mpr ⟨hSaved old hOld, hSaved⟩, hKeeps.frames⟩
  | call label hAllowed => exact proceed_keeps hKeeps.worlds hKeeps.frames (hCall _ label _ hAllowed hNow)
  | answer reply =>
    obtain ⟨hWorlds, hResume, hRest⟩ := hKeeps.frames
    exact proceed_keeps hWorlds hRest (hResume _ reply hNow)
  | refuse =>
    obtain ⟨hWorlds, -, hRest⟩ := hKeeps.frames
    exact ⟨hWorlds, hRest⟩

/-- What the others keep, and every call keeps around and during its requests, holds of
every configuration that is reached. -/
theorem Reaches.invariant
    (hElsewhere : ∀ stack w w', elsewhere stack w w' → Inv stack w → Inv stack w')
    (hCall : ∀ stack label w, allowed label → Inv stack w →
      (program label w).Safe (fun request => Inv ((label, request) :: stack)) fun _ => Inv stack)
    {start : W} {config : Config ι W ρ σ ε} (hReach : Reaches program elsewhere allowed start config)
    (hStart : Inv [] start) : Inv (pending config.frames) config.world := by
  have hKeeps : Keeps Inv config := by
    induction hReach with
    | refl =>
      refine ⟨?_, trivial⟩
      rintro _ (_ | ⟨_, ⟨⟩⟩)
      exact hStart
    | tail _ hStep ih => exact hStep.keeps hElsewhere hCall ih
  exact hKeeps.worlds _ List.mem_cons_self

end Stacks

end CallStack
