import GvsocPulp.Lib.Run

/-!
# Stop-and-go links

A link whose receiver takes every flit and answers whether it is full now; the sender then stops until the receiver
calls it back. A sender (`Sender`) and a receiver (`Receiver`) are machines that keep their side of the protocol; linked
(`LinkState.step`), the sender is stopped exactly while the receiver is full, whatever they do besides.

- `LinkInv`: the flow control of a link, kept by every step (`LinkInv.step`);
- `linkInv_run`: it holds in all states of a run, with what the two ends keep on their own.
-/

namespace GvsocPulp.Lib

open Option

/-- Flits sent one after the other, each only while the sender is not stalled and with the same answer. -/
inductive Sends {φ : Type*} (answer : Bool) : Bool → List φ → Bool → Prop
  | nil (stalled : Bool) : Sends answer stalled [] stalled
  | cons {f : φ} {fs : List φ} {stalled : Bool} (h : Sends answer answer fs stalled) :
      Sends answer false (f :: fs) stalled

theorem Sends.append {φ : Type*} {answer a b c : Bool} {fs fs' : List φ} (h : Sends answer a fs b)
    (h' : Sends answer b fs' c) : Sends answer a (fs ++ fs') c := by
  induction h with
  | nil => exact h'
  | cons _ ih => exact .cons (ih h')

/-- The sender of a link. An event comes with the answer that the receiver gives to the flits sent in it. -/
structure Sender (φ : Type*) where
  State : Type
  Event : Type
  step : State → Event → Option State
  stalled : State → Bool
  /-- The flits sent on the link in the last event. -/
  sent : State → List φ
  answer : Event → Bool
  unstall : State → Int → State
  sends : ∀ s e s', step s e = some s' → Sends (answer e) (stalled s) (sent s') (stalled s')
  stalled_unstall : ∀ s now, stalled (unstall s now) = false

/-- The receiver of a link, with the flits it has not passed on and how many of them it can hold. -/
structure Receiver (φ : Type*) where
  State : Type
  Event : Type
  step : State → Event → Option State
  /-- What the surroundings of the receiver answer when a flit arrives. -/
  Env : Type
  /-- A flit arrives; the answer is whether the receiver is full. -/
  receive : State → Env → φ → Option (State × Bool)
  /-- What holds of the states of the receiver. -/
  Ok : State → Prop
  load : State → Nat
  capacity : Nat
  /-- How often the last event has called the sender back. -/
  unstalls : State → Nat
  step_ok : ∀ s e s', Ok s → load s ≤ capacity → step s e = some s' → Ok s' ∧ load s' ≤ load s ∧
    unstalls s' = if load s = capacity ∧ load s' < capacity then 1 else 0
  receive_ok : ∀ s env f s' full, Ok s → load s < capacity → receive s env f = some (s', full) →
    Ok s' ∧ load s' ≤ capacity ∧ (full = true ↔ load s' = capacity)

section Link

variable {φ : Type*} {S : Sender φ} {R : Receiver φ}

/-- The two ends of a link, with the calls that reached a sender that was not stalled. -/
structure LinkState (S : Sender φ) (R : Receiver φ) where
  sender : S.State
  receiver : R.State
  idleUnstalls : Nat := 0

/-- What happens to one of the ends; the receiver calls back in the cycle `now`. -/
inductive LinkEvent (S : Sender φ) (R : Receiver φ)
  | sender (e : S.Event) (env : R.Env)
  | receiver (e : R.Event) (now : Int)

namespace LinkState

/-- The flits arrive; `none` where the receiver answers otherwise. -/
def receiveAll (env : R.Env) (answer : Bool) (r : R.State) : List φ → Option R.State
  | [] => some r
  | f :: fs => (R.receive r env f).bind fun (r, full) => if full = answer then receiveAll env answer r fs else none

/-- The receiver calls the sender back. -/
def unstall (now : Int) : Nat → LinkState S R → LinkState S R
  | 0, s => s
  | n + 1, s => unstall now n
      { s with
        sender := S.unstall s.sender now
        idleUnstalls := if S.stalled s.sender then s.idleUnstalls else s.idleUnstalls + 1 }

def step (s : LinkState S R) : LinkEvent S R → Option (LinkState S R)
  | .sender e env => (S.step s.sender e).bind fun sender =>
      (receiveAll env (S.answer e) s.receiver (S.sent sender)).map fun receiver => { s with sender, receiver }
  | .receiver e now => (R.step s.receiver e).map fun receiver => unstall now (R.unstalls receiver) { s with receiver }

end LinkState

/-- The flow control of a link: the sender is stalled exactly while the receiver is full. -/
structure LinkInv (s : LinkState S R) : Prop where
  ok : R.Ok s.receiver
  stalled_iff : S.stalled s.sender = true ↔ R.load s.receiver = R.capacity
  load_le : R.load s.receiver ≤ R.capacity
  idle : s.idleUnstalls = 0

/-- The flits of an event find room: the receiver keeps what it keeps for a flit that finds room, and is full exactly
if the sender is stalled afterwards. -/
theorem receiveAll_ok {P : R.State → Prop} {env : R.Env}
    (hP : ∀ r env f r' full, P r → R.Ok r → R.load r < R.capacity → R.receive r env f = some (r', full) → P r')
    {answer stalled stalled' : Bool} {fs : List φ} (hs : Sends answer stalled fs stalled') {r r' : R.State}
    (hpr : P r) (hok : R.Ok r) (hle : R.load r ≤ R.capacity) (hiff : stalled = true ↔ R.load r = R.capacity)
    (h : LinkState.receiveAll env answer r fs = some r') :
    P r' ∧ R.Ok r' ∧ R.load r' ≤ R.capacity ∧ (stalled' = true ↔ R.load r' = R.capacity) := by
  induction hs generalizing r with
  | nil =>
    cases h
    exact ⟨hpr, hok, hle, hiff⟩
  | @cons f fs stalled' _ ih =>
    rw [LinkState.receiveAll, bind_eq_some_iff] at h
    obtain ⟨⟨r₁, full⟩, h₁, h⟩ := h
    have hlt : R.load r < R.capacity := hle.lt_of_ne fun heq => by cases hiff.2 heq
    obtain ⟨hok₁, hle₁, hfull⟩ := R.receive_ok r env f r₁ full hok hlt h₁
    dsimp only at h
    split at h
    case isFalse => cases h
    case isTrue heq =>
      subst heq
      exact ih (hP r env f r₁ full hpr hok hlt h₁) hok₁ hle₁ hfull h

/-- **A step** keeps the flow control of the link, and what each end keeps on its own; the receiver's part is only
asked to take a flit that finds room. -/
theorem LinkInv.step {P : R.State → Prop} {Q : S.State → Prop}
    (hstep : ∀ r e r', P r → R.Ok r → R.load r ≤ R.capacity → R.step r e = some r' → P r')
    (hreceive : ∀ r env f r' full, P r → R.Ok r → R.load r < R.capacity → R.receive r env f = some (r', full) → P r')
    (hsender : ∀ s e s', Q s → S.step s e = some s' → Q s') (hunstall : ∀ s now, Q s → Q (S.unstall s now))
    {s s' : LinkState S R} {e : LinkEvent S R} (hi : LinkInv s) (hp : P s.receiver) (hq : Q s.sender)
    (h : s.step e = some s') : LinkInv s' ∧ P s'.receiver ∧ Q s'.sender := by
  cases e with
  | sender e env =>
    rw [LinkState.step, bind_eq_some_iff] at h
    obtain ⟨snd, hsnd, h⟩ := h
    rw [map_eq_some_iff] at h
    obtain ⟨rcv, hrcv, rfl⟩ := h
    obtain ⟨hp', hok, hle, hiff⟩ :=
      receiveAll_ok hreceive (S.sends _ _ _ hsnd) hp hi.ok hi.load_le hi.stalled_iff hrcv
    exact ⟨⟨hok, hiff, hle, hi.idle⟩, hp', hsender _ _ _ hq hsnd⟩
  | receiver e now =>
    rw [LinkState.step, map_eq_some_iff] at h
    obtain ⟨rcv, hrcv, rfl⟩ := h
    obtain ⟨hok, hle, hcalls⟩ := R.step_ok _ _ _ hi.ok hi.load_le hrcv
    have hp' := hstep _ _ _ hp hi.ok hi.load_le hrcv
    by_cases hfree : R.load s.receiver = R.capacity ∧ R.load rcv < R.capacity
    · rw [if_pos hfree] at hcalls
      have hst : S.stalled s.sender = true := hi.stalled_iff.2 hfree.1
      rw [hcalls]
      refine ⟨⟨hok, ?_, hfree.2.le, ?_⟩, hp', hunstall _ _ hq⟩
      · show S.stalled (S.unstall s.sender now) = true ↔ R.load rcv = R.capacity
        rw [S.stalled_unstall]
        exact ⟨fun h => (by cases h), fun h => absurd h hfree.2.ne⟩
      · show (if S.stalled s.sender = true then s.idleUnstalls else s.idleUnstalls + 1) = 0
        rw [if_pos hst]
        exact hi.idle
    · rw [if_neg hfree] at hcalls
      rw [hcalls]
      refine ⟨⟨hok, ?_, hle.trans hi.load_le, hi.idle⟩, hp', hq⟩
      show S.stalled s.sender = true ↔ R.load rcv = R.capacity
      rw [hi.stalled_iff]
      constructor
      · intro hfull
        exact (hle.trans hi.load_le).antisymm (not_lt.1 fun hlt => hfree ⟨hfull, hlt⟩)
      · intro hfull
        exact hi.load_le.antisymm (hfull ▸ hle)

theorem linkInv_run {P : R.State → Prop} {Q : S.State → Prop}
    (hstep : ∀ r e r', P r → R.Ok r → R.load r ≤ R.capacity → R.step r e = some r' → P r')
    (hreceive : ∀ r env f r' full, P r → R.Ok r → R.load r < R.capacity → R.receive r env f = some (r', full) → P r')
    (hsender : ∀ s e s', Q s → S.step s e = some s' → Q s') (hunstall : ∀ s now, Q s → Q (S.unstall s now)) :
    ∀ {es : List (LinkEvent S R)} {s : LinkState S R}, LinkInv s → P s.receiver → Q s.sender →
      AllStates LinkState.step (fun s => LinkInv s ∧ P s.receiver ∧ Q s.sender) s es
  | [], _, hi, hp, hq => ⟨hi, hp, hq⟩
  | e :: es, s, hi, hp, hq => by
    refine ⟨⟨hi, hp, hq⟩, fun s' hs' => ?_⟩
    obtain ⟨hi', hp', hq'⟩ := hi.step hstep hreceive hsender hunstall hp hq hs'
    exact linkInv_run hstep hreceive hsender hunstall hi' hp' hq'

end Link

end GvsocPulp.Lib
