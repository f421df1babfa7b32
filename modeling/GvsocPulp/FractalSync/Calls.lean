import GvsocPulp.FractalSync.Phases

/-!
# `FractalSync`: the calls on their way

The requests that are to be handled, the answers that are to be delivered and the wakes that participants have got,
against the phases of the ports (`CallsOk`): one request for each port whose request is to be handled, one answer for
each port that is answered, one wake for each participant whose port is done, and no others.

One lemma for each way in which a call comes or goes.
-/

namespace GvsocPulp.FractalSync

open Function List Call

open Node (set₂)

variable {ν : Type} [DecidableEq ν] {t : Tree ν}

variable {α β γ : Type} {a a' : α} {b b' : β}

def Call.isRequest (id : Nat) (port : ν × Dir) : Call ν → Bool
  | .request port' req => port' = port ∧ req.idReq = id
  | .response _ _ => false

def Call.isResponse (id : Nat) (pair : ν × Pair) : Call ν → Bool
  | .request _ _ => false
  | .response pair' rsp => pair' = pair ∧ rsp.idRsp = id

def QueueEntry.isFor (id : Nat) (dir : Dir) (entry : QueueEntry) : Bool := entry.portId = dir ∧ entry.req.idReq = id

/-- A request of the barrier that the id is used for, by one of its ports. -/
def Legit (current : Nat → Option (Barrier t)) (port : ν × Dir) (req : PortReq) : Prop :=
  ∃ b, current req.idReq = some b ∧ b.used port = true ∧ req = b.req req.idReq

/-- What a participant has got: one wake. -/
def Woken (id : Nat) (rsps : List PortResp) : Prop :=
  ∃ rsp, rsps = [rsp] ∧ rsp.wake = true ∧ rsp.error = false ∧ rsp.idRsp = id

/-- The calls, the queues of the nodes and what the participants have got are what the phases say. -/
structure CallsOk (current : Nat → Option (Barrier t)) (calls : List (Call ν)) (queue : ν → List QueueEntry)
    (wakes : Nat → ν × Dir → List PortResp) (ph : Nat → ν × Dir → Phase) : Prop where
  requests : ∀ id port, calls.countP (Call.isRequest id port) + (queue port.1).countP (QueueEntry.isFor id port.2) =
    if ph id port = .req then 1 else 0
  responses : ∀ id port pair, t.down port = some pair →
    calls.countP (Call.isResponse id pair) = if ph id port = .ans then 1 else 0
  legit : ∀ port req, Call.request port req ∈ calls → Legit current port req
  queued : ∀ n, ∀ entry ∈ queue n, Legit current (n, entry.portId) entry.req
  answers : ∀ pair rsp, Call.response pair rsp ∈ calls → ∃ port, t.down port = some pair
  wakes : ∀ id port, if t.down port = none ∧ ph id port = .done then Woken id (wakes id port) else wakes id port = []

theorem set₂_self [DecidableEq α] [DecidableEq β] (f : α → β → γ) (a : α) (b : β) (v : γ) :
    set₂ f a b v a b = v := if_pos ⟨rfl, rfl⟩

theorem set₂_of_ne [DecidableEq α] [DecidableEq β] (f : α → β → γ) (v : γ)
    (h : ¬(a' = a ∧ b' = b)) : set₂ f a b v a' b' = f a' b' := if_neg h

theorem set₂_eq_iff [DecidableEq α] [DecidableEq β] {f : α → β → γ} {v y : γ}
    (hold : f a b ≠ y) (hnew : v ≠ y) : set₂ f a b v a' b' = y ↔ f a' b' = y := by
  rw [set₂]
  split
  case isTrue heq =>
    rw [heq.1, heq.2]
    exact ⟨fun h => absurd h hnew, fun h => absurd h hold⟩
  case isFalse => rfl

namespace CallsOk

variable {current : Nat → Option (Barrier t)} {calls calls' : List (Call ν)} {queue queue' : ν → List QueueEntry}
  {wakes : Nat → ν × Dir → List PortResp} {ph ph' : Nat → ν × Dir → Phase} {id : Nat} {port : ν × Dir} {pair : ν × Pair}
  {req : PortReq} {rsp : PortResp} {x : Phase}

/-- Neither a request to be handled nor an answer to be delivered, nor done. -/
def Phase.silent : Phase → Bool
  | .req | .ans | .done => false
  | _ => true

section

variable (h : CallsOk current calls queue wakes ph)
include h

theorem perm (hp : calls.Perm calls') : CallsOk current calls' queue wakes ph where
  requests id port := by
    rw [← hp.countP_eq]
    exact h.requests id port
  responses id port pair hd := by
    rw [← hp.countP_eq]
    exact h.responses id port pair hd
  legit port req hc := h.legit port req (hp.mem_iff.2 hc)
  queued := h.queued
  answers pair rsp hc := h.answers pair rsp (hp.mem_iff.2 hc)
  wakes := h.wakes

theorem move (hmove : ∀ id port, ph' id port = ph id port ∨ Phase.silent (ph id port) = true ∧
    Phase.silent (ph' id port) = true) :
    CallsOk current calls queue wakes ph' := by
  have hsame : ∀ y : Phase, Phase.silent y = false → ∀ id port, ph' id port = y ↔ ph id port = y := by
    intro y hy id port
    rcases hmove id port with heq | ⟨hold, hnew⟩
    · rw [heq]
    · constructor <;> rintro rfl
      · rw [hnew] at hy; cases hy
      · rw [hold] at hy; cases hy
  refine ⟨fun id port => ?_, fun id port pair hd => ?_, h.legit, h.queued, h.answers, fun id port => ?_⟩
  · simp only [hsame .req rfl]
    exact h.requests id port
  · simp only [hsame .ans rfl]
    exact h.responses id port pair hd
  · simp only [hsame .done rfl]
    exact h.wakes id port

/-! ## Requests -/

theorem send (hbefore : ph id port = .before) (hid : req.idReq = id) (hlegit : Legit current port req) :
    CallsOk current (.request port req :: calls) queue wakes (set₂ ph id port .req) := by
  subst hid
  refine ⟨fun id' port' => ?_, fun id' port' pair hd => ?_, fun port' req' hc => ?_, h.queued, fun pair rsp hc => ?_,
    fun id' port' => ?_⟩
  · rw [countP_cons, isRequest]
    have hreq := h.requests id' port'
    by_cases heq : id' = req.idReq ∧ port' = port
    · obtain ⟨rfl, rfl⟩ := heq
      rw [hbefore, if_neg (by simp)] at hreq
      rw [set₂_self]
      simp only [and_self, decide_true, if_true]
      omega
    · rw [set₂_of_ne _ _ heq, ← hreq]
      have hne : ¬(port = port' ∧ req.idReq = id') := fun h => heq ⟨h.2.symm, h.1.symm⟩
      simp [hne]
  · simp only [set₂_eq_iff (show ph req.idReq port ≠ .ans by rw [hbefore]; simp) (show Phase.req ≠ .ans by simp)]
    rw [countP_cons, h.responses id' port' pair hd]
    rfl
  · rcases mem_cons.1 hc with heq | hc
    · cases heq
      exact hlegit
    · exact h.legit port' req' hc
  · rcases mem_cons.1 hc with heq | hc
    · cases heq
    · exact h.answers pair rsp hc
  · simp only [set₂_eq_iff (show ph req.idReq port ≠ .done by rw [hbefore]; simp) (show Phase.req ≠ .done by simp)]
    exact h.wakes id' port'

end

section

variable (h : CallsOk current (.request port req :: calls) queue wakes ph)
include h

theorem phase_of_request : ph req.idReq port = .req := by
  have hreq := h.requests req.idReq port
  rw [countP_cons, isRequest] at hreq
  by_contra hne
  rw [if_neg hne] at hreq
  simp at hreq

theorem handled (hx : Phase.silent x = true) :
    CallsOk current calls queue wakes (set₂ ph req.idReq port x) := by
  have hph := h.phase_of_request
  refine ⟨fun id' port' => ?_, fun id' port' pair hd => ?_,
    fun port' req' hc => h.legit port' req' (mem_cons_of_mem _ hc),
    h.queued, fun pair rsp hc => h.answers pair rsp (mem_cons_of_mem _ hc), fun id' port' => ?_⟩
  · have hreq := h.requests id' port'
    rw [countP_cons, isRequest] at hreq
    by_cases heq : id' = req.idReq ∧ port' = port
    · obtain ⟨rfl, rfl⟩ := heq
      rw [hph, if_pos rfl] at hreq
      simp only [and_self, decide_true, if_true] at hreq
      rw [set₂_self, if_neg (fun h => by rw [h] at hx; cases hx)]
      omega
    · have hne : ¬(port = port' ∧ req.idReq = id') := fun h => heq ⟨h.2.symm, h.1.symm⟩
      simp only [hne, decide_false, Bool.false_eq_true, if_false, Nat.add_zero] at hreq
      rw [set₂_of_ne _ _ heq, hreq]
  · simp only [set₂_eq_iff (show ph req.idReq port ≠ .ans by rw [hph]; simp)
      (show x ≠ .ans from fun h => by rw [h] at hx; cases hx)]
    rw [← h.responses id' port' pair hd, countP_cons]
    rfl
  · simp only [set₂_eq_iff (show ph req.idReq port ≠ .done by rw [hph]; simp)
      (show x ≠ .done from fun h => by rw [h] at hx; cases hx)]
    exact h.wakes id' port'

theorem enqueue (seq : Nat) :
    CallsOk current calls (update queue port.1 (queue port.1 ++ [⟨req, port.2, seq⟩])) wakes ph := by
  refine ⟨fun id' port' => ?_, fun id' port' pair hd => ?_,
    fun port' req' hc => h.legit port' req' (mem_cons_of_mem _ hc),
    fun n entry he => ?_, fun pair rsp hc => h.answers pair rsp (mem_cons_of_mem _ hc), h.wakes⟩
  · rw [← h.requests id' port', countP_cons, isRequest]
    by_cases hn : port'.1 = port.1
    · rw [hn, update_self, countP_append, countP_singleton, QueueEntry.isFor]
      have hiff : (port = port' ∧ req.idReq = id') ↔ (port.2 = port'.2 ∧ req.idReq = id') := by
        rw [Prod.ext_iff]
        simp [hn]
      simp only [hiff]
      omega
    · have hne : ¬(port = port' ∧ req.idReq = id') := fun h => hn (by rw [h.1])
      rw [update_of_ne hn]
      simp [hne]
  · rw [← h.responses id' port' pair hd, countP_cons]
    rfl
  · by_cases hn : n = port.1
    · subst hn
      rw [update_self, mem_append, mem_singleton] at he
      rcases he with he | rfl
      · exact h.queued _ entry he
      · exact h.legit port req mem_cons_self
    · rw [update_of_ne hn] at he
      exact h.queued n entry he

end

theorem dequeue {n : ν} {entry : QueueEntry} {rest : List QueueEntry} (h : CallsOk current calls queue wakes ph)
    (hq : queue n = entry :: rest) :
    CallsOk current (.request (n, entry.portId) entry.req :: calls) (update queue n rest) wakes ph := by
  refine ⟨fun id' port' => ?_, fun id' port' pair hd => ?_, fun port' req' hc => ?_, fun n' entry' he => ?_,
    fun pair rsp hc => ?_, h.wakes⟩
  · rw [← h.requests id' port', countP_cons, isRequest]
    by_cases hn : port'.1 = n
    · subst hn
      rw [update_self, hq, countP_cons, QueueEntry.isFor]
      have hiff : ((port'.1, entry.portId) = port' ∧ entry.req.idReq = id') ↔
          (entry.portId = port'.2 ∧ entry.req.idReq = id') := by
        rw [Prod.ext_iff]
        simp
      simp only [hiff]
      omega
    · have hne : ¬((n, entry.portId) = port' ∧ entry.req.idReq = id') := fun h => hn (by rw [← h.1])
      rw [update_of_ne hn]
      simp [hne]
  · rw [← h.responses id' port' pair hd, countP_cons]
    rfl
  · rcases mem_cons.1 hc with heq | hc
    · cases heq
      refine h.queued n entry ?_
      rw [hq]
      exact mem_cons_self
    · exact h.legit port' req' hc
  · by_cases hn : n' = n
    · subst hn
      rw [update_self] at he
      refine h.queued n' entry' ?_
      rw [hq]
      exact mem_cons_of_mem _ he
    · rw [update_of_ne hn] at he
      exact h.queued n' entry' he
  · rcases mem_cons.1 hc with heq | hc
    · cases heq
    · exact h.answers pair rsp hc

/-! ## Answers -/

theorem answer (h : CallsOk current calls queue wakes ph) (hd : t.down port = some pair)
    (hold : Phase.silent (ph id port) = true) (hid : rsp.idRsp = id) :
    CallsOk current (.response pair rsp :: calls) queue wakes (set₂ ph id port .ans) := by
  subst hid
  have hne : ∀ y, Phase.silent y = false → ph rsp.idRsp port ≠ y := fun y hy h => by rw [h, hy] at hold; cases hold
  refine ⟨fun id' port' => ?_, fun id' port' pair' hd' => ?_, fun port' req' hc => ?_, h.queued,
    fun pair' rsp' hc => ?_, fun id' port' => ?_⟩
  · simp only [set₂_eq_iff (hne .req rfl) (show Phase.ans ≠ .req by simp)]
    rw [← h.requests id' port', countP_cons]
    rfl
  · have hrsp := h.responses id' port' pair' hd'
    rw [countP_cons, isResponse]
    by_cases heq : id' = rsp.idRsp ∧ port' = port
    · obtain ⟨rfl, rfl⟩ := heq
      rw [hd'] at hd
      cases hd
      rw [if_neg (hne .ans rfl)] at hrsp
      rw [set₂_self, hrsp]
      simp
    · have hne' : ¬(pair = pair' ∧ rsp.idRsp = id') := by
        rintro ⟨rfl, hid⟩
        refine heq ⟨hid.symm, ?_⟩
        exact Option.some.inj (((t.down_iff _ _).1 hd').symm.trans ((t.down_iff _ _).1 hd))
      rw [set₂_of_ne _ _ heq, ← hrsp]
      simp [hne']
  · rcases mem_cons.1 hc with heq | hc
    · cases heq
    · exact h.legit port' req' hc
  · rcases mem_cons.1 hc with heq | hc
    · cases heq
      exact ⟨port, hd⟩
    · exact h.answers pair' rsp' hc
  · simp only [set₂_eq_iff (hne .done rfl) (show Phase.ans ≠ .done by simp)]
    exact h.wakes id' port'

section

variable (h : CallsOk current (.response pair rsp :: calls) queue wakes ph) (hd : t.down port = some pair)
include h hd

theorem phase_of_response :
    ph rsp.idRsp port = .ans := by
  have hrsp := h.responses rsp.idRsp port pair hd
  rw [countP_cons, isResponse] at hrsp
  by_contra hne
  rw [if_neg hne] at hrsp
  simp at hrsp

theorem delivered :
    CallsOk current calls queue wakes (set₂ ph rsp.idRsp port .done) := by
  have hph := h.phase_of_response hd
  refine ⟨fun id' port' => ?_, fun id' port' pair' hd' => ?_,
    fun port' req' hc => h.legit port' req' (mem_cons_of_mem _ hc),
    h.queued, fun pair' rsp' hc => h.answers pair' rsp' (mem_cons_of_mem _ hc), fun id' port' => ?_⟩
  · simp only [set₂_eq_iff (show ph rsp.idRsp port ≠ .req by rw [hph]; simp) (show Phase.done ≠ .req by simp)]
    rw [← h.requests id' port', countP_cons]
    rfl
  · have hrsp := h.responses id' port' pair' hd'
    rw [countP_cons, isResponse] at hrsp
    by_cases heq : id' = rsp.idRsp ∧ port' = port
    · obtain ⟨rfl, rfl⟩ := heq
      rw [hd'] at hd
      cases hd
      rw [hph, if_pos rfl] at hrsp
      simp only [and_self, decide_true, if_true] at hrsp
      rw [set₂_self, if_neg (by simp)]
      omega
    · have hne' : ¬(pair = pair' ∧ rsp.idRsp = id') := by
        rintro ⟨rfl, hid⟩
        refine heq ⟨hid.symm, ?_⟩
        exact Option.some.inj (((t.down_iff _ _).1 hd').symm.trans ((t.down_iff _ _).1 hd))
      simp only [hne', decide_false, Bool.false_eq_true, if_false, Nat.add_zero] at hrsp
      rw [set₂_of_ne _ _ heq, hrsp]
  · have hw := h.wakes id' port'
    by_cases heq : id' = rsp.idRsp ∧ port' = port
    · obtain ⟨rfl, rfl⟩ := heq
      have hnone : t.down port' ≠ none := by rw [hd]; simp
      rw [if_neg (fun h => hnone h.1)] at hw ⊢
      exact hw
    · rw [set₂_of_ne _ _ heq]
      exact hw

end

theorem wake (h : CallsOk current calls queue wakes ph) (hd : t.down port = none)
    (hold : Phase.silent (ph id port) = true) (hid : rsp.idRsp = id) (hwake : rsp.wake = true)
    (herror : rsp.error = false) :
    CallsOk current calls queue (set₂ wakes id port (wakes id port ++ [rsp])) (set₂ ph id port .done) := by
  have hne : ∀ y, Phase.silent y = false → ph id port ≠ y := fun y hy h => by rw [h, hy] at hold; cases hold
  refine ⟨fun id' port' => ?_, fun id' port' pair' hd' => ?_, h.legit, h.queued, h.answers, fun id' port' => ?_⟩
  · simp only [set₂_eq_iff (hne .req rfl) (show Phase.done ≠ .req by simp)]
    exact h.requests id' port'
  · simp only [set₂_eq_iff (hne .ans rfl) (show Phase.done ≠ .ans by simp)]
    exact h.responses id' port' pair' hd'
  · have hw := h.wakes id' port'
    by_cases heq : id' = id ∧ port' = port
    · obtain ⟨rfl, rfl⟩ := heq
      rw [if_neg (fun h => hne .done rfl h.2)] at hw
      rw [set₂_self, set₂_self, if_pos ⟨hd, rfl⟩, hw]
      exact ⟨rsp, rfl, hwake, herror, hid⟩
    · rw [set₂_of_ne _ _ heq, set₂_of_ne _ _ heq]
      exact hw

end CallsOk

end GvsocPulp.FractalSync
