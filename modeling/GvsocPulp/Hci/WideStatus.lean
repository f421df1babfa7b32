import GvsocPulp.Hci.Crossbar
import GvsocPulp.TcdmInterco.Interco

/-!
# The answers of wide accesses

How the two crossbars answer a wide request from the answers of the banks to its chunks: both send all chunks with one
sub-request, which carries what it had before as far as `prepare` leaves it.

- `status_wideForward`: the HCI leaves the status of the request as it is;
- `status_forwardWide`: the MAGIA interconnect keeps the errors of the chunks;
- `wide_errors_iff`: so when the errors are reported.
-/

namespace GvsocPulp.Hci

inductive RespStatus
  | ok
  | invalid
  deriving DecidableEq, Repr

/-- The answer to a request, as the request carries it. -/
structure Resp where
  status : RespStatus
  latency : Int
  deriving DecidableEq, Repr

/-- The answer of a bank: it may leave the status as it is. -/
structure BankAnswer where
  status : Option RespStatus
  latency : Int := 0
  deriving DecidableEq, Repr

def Resp.answer (sub : Resp) (a : BankAnswer) : Resp := { status := a.status.getD sub.status, latency := a.latency }

def BankAnswer.Invalid (a : BankAnswer) : Prop := a.status = some .invalid

instance (a : BankAnswer) : Decidable a.Invalid := by
  unfold BankAnswer.Invalid
  infer_instance

/-! ## The loops -/

/-- The loop of `Hci::wide_forward` over `n` chunks, of which `i` is the first: the sub-request and the largest latency.
-/
def wideForwardLoopResp (prepare : Resp → Resp) (answers : Nat → BankAnswer) : Nat → Nat → Resp → Int → Resp × Int
  | 0, _, sub, maxLatency => (sub, maxLatency)
  | n + 1, i, sub, maxLatency =>
    let sub := (prepare sub).answer (answers i)
    wideForwardLoopResp prepare answers n (i + 1) sub (if sub.latency > maxLatency then sub.latency else maxLatency)

/-- `Hci::wide_forward`, for what the request carries. -/
def wideForwardResp (cfg : Config) (prepare : Resp → Resp) (answers : Nat → BankAnswer) (sub : Resp) (req : Req)
    (resp : Resp) : Resp :=
  { resp with latency := (wideForwardLoopResp prepare answers (wideForward cfg req).length 0 sub 0).2 }

/-- The loop of `MagiaTcdmInterco::forward_wide`: the sub-request, the status of the request and the largest latency. -/
def forwardWideLoopResp (prepare : Resp → Resp) (answers : Nat → BankAnswer) :
    Nat → Nat → Resp → RespStatus → Int → Resp × RespStatus × Int
  | 0, _, sub, status, maxLatency => (sub, status, maxLatency)
  | n + 1, i, sub, status, maxLatency =>
    let sub := { prepare sub with status := .ok }.answer (answers i)
    forwardWideLoopResp prepare answers n (i + 1) sub (if sub.status ≠ .ok then sub.status else status)
      (if sub.latency > maxLatency then sub.latency else maxLatency)

/-- `MagiaTcdmInterco::forward_wide`, for what the request carries. -/
def forwardWideResp (cfg : TcdmInterco.Config) (prepare : Resp → Resp) (answers : Nat → BankAnswer) (sub : Resp)
    (req : TcdmInterco.Req) (resp : Resp) : Resp :=
  let (_, status, maxLatency) :=
    forwardWideLoopResp prepare answers (TcdmInterco.forwardWide cfg req).length 0 sub resp.status 0
  { status := status, latency := resp.latency + maxLatency }

/-! ## The status -/

section Status

variable {cfg : Config} {prepare : Resp → Resp} {answers : Nat → BankAnswer} {sub resp : Resp}

theorem status_wideForward (req : Req) : (wideForwardResp cfg prepare answers sub req resp).status = resp.status := rfl

theorem status_forwardWideLoop (prepare : Resp → Resp) (answers : Nat → BankAnswer) :
    ∀ (n i : Nat) (sub : Resp) (status : RespStatus) (maxLatency : Int),
    (forwardWideLoopResp prepare answers n i sub status maxLatency).2.1 = .invalid ↔
      status = .invalid ∨ ∃ k < n, (answers (i + k)).Invalid
  | 0, i, sub, status, maxLatency => by simp [forwardWideLoopResp]
  | n + 1, i, sub, status, maxLatency => by
    have hstatus : (({ prepare sub with status := .ok } : Resp).answer (answers i)).status =
      (answers i).status.getD .ok := rfl
    rw [forwardWideLoopResp]
    rw [status_forwardWideLoop, hstatus]
    have hfirst : (if (answers i).status.getD .ok ≠ .ok then (answers i).status.getD .ok else status) = .invalid ↔
        status = .invalid ∨ (answers i).Invalid := by
      rw [BankAnswer.Invalid]
      rcases (answers i).status with _ | (_ | _) <;> simp
    rw [hfirst, or_assoc]
    refine or_congr_right ?_
    constructor
    · rintro (h | ⟨k, hk, h⟩)
      · exact ⟨0, Nat.succ_pos n, h⟩
      · exact ⟨k + 1, Nat.succ_lt_succ hk, by rwa [add_comm k, ← add_assoc]⟩
    · rintro ⟨k, hk, h⟩
      cases k with
      | zero => exact .inl h
      | succ k => exact .inr ⟨k, Nat.lt_of_succ_lt_succ hk, by rwa [add_comm k, ← add_assoc] at h⟩

theorem status_forwardWide (cfg : TcdmInterco.Config) (req : TcdmInterco.Req) :
    (forwardWideResp cfg prepare answers sub req resp).status = .invalid ↔
      resp.status = .invalid ∨ ∃ k < (TcdmInterco.forwardWide cfg req).length, (answers k).Invalid := by
  have h := status_forwardWideLoop prepare answers (TcdmInterco.forwardWide cfg req).length 0 sub resp.status 0
  simp only [zero_add] at h
  exact h

/-- A wide request reports the errors of its chunks: of `n` of them. -/
def Reports (answers : Nat → BankAnswer) (n : Nat) (resp : Resp) : Prop :=
  resp.status = .invalid ↔ ∃ k < n, (answers k).Invalid

/-- **The errors of the chunks are reported** by both crossbars iff the request through the HCI comes with an error
exactly where a chunk has one, and that through the MAGIA interconnect with an error only where a chunk has one. -/
theorem wide_errors_iff (cfg : Config) (cfg' : TcdmInterco.Config) (prepare : Resp → Resp)
    (answers answers' : Nat → BankAnswer) (sub sub' : Resp) (req : Req) (req' : TcdmInterco.Req) (resp resp' : Resp) :
    (Reports answers (wideForward cfg req).length (wideForwardResp cfg prepare answers sub req resp) ∧
      Reports answers' (TcdmInterco.forwardWide cfg' req').length
        (forwardWideResp cfg' prepare answers' sub' req' resp')) ↔
      (resp.status = .invalid ↔ ∃ k < (wideForward cfg req).length, (answers k).Invalid) ∧
        (resp'.status = .invalid → ∃ k < (TcdmInterco.forwardWide cfg' req').length, (answers' k).Invalid) := by
  rw [Reports, Reports, status_wideForward, status_forwardWide]
  refine and_congr_right fun _ => ?_
  constructor
  · exact fun h hin => h.1 (.inl hin)
  · intro h
    constructor
    · rintro (hin | hex)
      · exact h hin
      · exact hex
    · exact .inr

def oneWord : Config where
  nbMasters := 1
  nbGroup0Masters := 0
  slaveBits := 0
  interleavingWidth := 2
  nbWideMasters := 1
  wideMaxStall := 0
  widePrio := false
  masters_pos := Nat.one_pos
  masters_le := by decide
  group0_le := by decide
  slaves_le := by decide
  shift_lt := by decide

/-- A request whose only chunk is answered with an error, and that is answered without one. -/
theorem error_dropped : ¬ Reports (fun _ => { status := some .invalid }) (wideForward oneWord ⟨0, 4, 0, false⟩).length
    (wideForwardResp oneWord id (fun _ => { status := some .invalid }) ⟨.ok, 0⟩ ⟨0, 4, 0, false⟩ ⟨.ok, 0⟩) := by
  intro h
  have hex : ∃ k < (wideForward oneWord ⟨0, 4, 0, false⟩).length, (⟨some .invalid, 0⟩ : BankAnswer).Invalid :=
    ⟨0, by decide, rfl⟩
  cases h.2 hex

end Status

end GvsocPulp.Hci
