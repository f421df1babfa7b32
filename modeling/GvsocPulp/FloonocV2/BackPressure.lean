import GvsocPulp.FloonocV2.HeldFlits
import GvsocPulp.FloonocV2.Router

/-!
# Back-pressure between the nodes

A router or a network interface that feeds a router or a network interface over a `floonoc_link`, as the two ends of a
stop-and-go link: the FIFO of a router input holds up to its capacity, an interface one flit of the link.

- `RouterV2.sender`, `RouterV2.receiver`, `NetworkInterfaceV2.sender`, `NetworkInterfaceV2.receiver`: the ends;
- `backPressure`: the sender is stalled exactly while the receiver is full, the FIFOs keep their bounds, and what
  arrives at an interface is handed to its target once and in order.
-/

namespace GvsocPulp.FloonocV2

open Lib Function List Option Output

/-! ## Routers -/

variable {flit : Flit} {input : Nat}

section Router

variable {cfg : RouterV2Config} {env : RouterEnv} {s s' s'' : RouterV2}

def RouterOutput.sentOn (output : Nat) : RouterOutput → Option Flit
  | .link output' flit => if output' = output then some flit else none
  | _ => none

def RouterV2.SendsOn (env : RouterEnv) (output : Nat) (s s' : RouterV2) : Prop :=
  ∃ os, s'.outputs = s.outputs ++ os ∧
    Sends (env.linkFull output) (s.stalledQueues output) (os.filterMap (·.sentOn output)) (s'.stalledQueues output)

/-- What a function of the router does to its input `input`: flits leave the FIFO, and the sender is called back once it
is not full any more. -/
def RouterV2.TakesFrom (cfg : RouterV2Config) (input : Nat) (s s' : RouterV2) : Prop :=
  (s'.inputQueues input).length ≤ (s.inputQueues input).length ∧ ∃ os, s'.outputs = s.outputs ++ os ∧
    ((s.inputQueues input).length ≤ cfg.queueCapacity input → os.count (.unstall input) =
      if (s.inputQueues input).length = cfg.queueCapacity input ∧
        (s'.inputQueues input).length < cfg.queueCapacity input then 1 else 0)

namespace RouterV2

variable {output : Nat}

theorem SendsOn.trans (h : SendsOn env output s s') (h' : SendsOn env output s' s'') :
    SendsOn env output s s'' := by
  obtain ⟨os, hos, hsend⟩ := h
  obtain ⟨os', hos', hsend'⟩ := h'
  refine ⟨os ++ os', by rw [hos', hos, append_assoc], ?_⟩
  rw [filterMap_append]
  exact hsend.append hsend'

theorem SendsOn.of_eq (hst : s'.stalledQueues output = s.stalledQueues output)
    (hos : ∃ os, s'.outputs = s.outputs ++ os ∧ os.filterMap (·.sentOn output) = []) : SendsOn env output s s' := by
  obtain ⟨os, hos, hno⟩ := hos
  refine ⟨os, hos, ?_⟩
  rw [hno, hst]
  exact .nil _

theorem SendsOn.refl (output : Nat) (s : RouterV2) : SendsOn env output s s := .of_eq rfl ⟨[], by simp⟩

theorem SendsOn.foldl {ι : Type*} {f : RouterV2 → ι → RouterV2} (hf : ∀ s i, SendsOn env output s (f s i))
    (is : List ι) : SendsOn env output s (is.foldl f s) := by
  induction is generalizing s with
  | nil => exact .refl output s
  | cons i is ih => exact (hf s i).trans ih

theorem sendOutput_sendsOn (output output' : Nat) : SendsOn env output s (s.sendOutput env output') := by
  rw [sendOutput]
  split
  case h_1 => exact .refl output s
  case h_2 flit rest _ =>
    split
    case isTrue => exact .refl output s
    case isFalse hno =>
      rw [Bool.or_eq_true, Bool.or_eq_true, not_or, not_or] at hno
      obtain ⟨⟨hst, -⟩, -⟩ := hno
      by_cases heq : output' = output
      · subst heq
        refine ⟨[.link output' flit], rfl, ?_⟩
        have hsent : [RouterOutput.link output' flit].filterMap (·.sentOn output') = [flit] := by
          simp [RouterOutput.sentOn]
        rw [hsent, Bool.eq_false_iff.2 hst]
        refine .cons ?_
        show Sends _ _ [] ((if env.linkFull output' then update s.stalledQueues output' true
          else s.stalledQueues) output')
        cases hfull : env.linkFull output' with
        | true => rw [if_pos rfl, update_self]; exact .nil true
        | false => rw [if_neg (by simp), Bool.eq_false_iff.2 hst]; exact .nil false
      · refine .of_eq ?_ ⟨[.link output' flit], rfl, by simp [RouterOutput.sentOn, heq]⟩
        show (if env.linkFull output' then update s.stalledQueues output' true else s.stalledQueues) output = _
        split
        · exact update_of_ne (Ne.symm heq) _ _
        · rfl

theorem moveFlit_sendsOn {output' : Nat} {rest : List Flit} (output : Nat) :
    SendsOn env output s (s.moveFlit cfg input output' flit rest) := by
  refine .of_eq (by rw [moveFlit_stalledQueues]) ⟨_, moveFlit_outputs, ?_⟩
  split <;> rfl

variable {heads : List (Option Nat)} {full : Nat → Bool}

theorem arbitrate_sendsOn (output output' : Nat) :
    SendsOn env output s (arbitrate cfg full heads s output') := by
  obtain ⟨arbiters, h | ⟨input, flit, rest, -, -, -, h⟩⟩ := arbitrate_cases cfg full heads s output'
  · rw [h]
    exact .of_eq rfl ⟨[], by simp⟩
  · rw [h]
    exact (moveFlit_sendsOn output).trans (.of_eq rfl ⟨[], by simp⟩)

theorem fsmHandler_sendsOn (output : Nat) (h : s.fsmHandler cfg env = some s') : SendsOn env output s s' := by
  rw [fsmHandler, map_eq_some_iff] at h
  obtain ⟨heads, -, rfl⟩ := h
  exact (SendsOn.foldl (fun s i => sendOutput_sendsOn output i) _).trans
    (SendsOn.foldl (fun s i => arbitrate_sendsOn output i) _)

def sender (cfg : RouterV2Config) (output : Nat) : Sender Flit where
  State := RouterV2
  Event := RouterEnv × RouterEvent
  step s e := if e.2 = .linkUnstall output then none else routerStep cfg s e
  stalled s := s.stalledQueues output
  sent s := s.outputs.filterMap (·.sentOn output)
  answer e := e.1.linkFull output
  unstall s now := s.linkUnstall { now } output
  sends s e s' h := by
    split at h
    case isTrue => cases h
    case isFalse hne =>
      have hsend : SendsOn e.1 output { s with outputs := [] } s' := by
        obtain ⟨env, e⟩ := e
        cases e with
        | fsm => exact fsmHandler_sendsOn output h
        | linkReq input flit => cases h; exact .of_eq rfl ⟨[_], rfl, rfl⟩
        | linkUnstall output' =>
          cases h
          have hout : output ≠ output' := fun heq => hne (by rw [heq])
          exact .of_eq (update_of_ne hout _ _) ⟨[], by simp [linkUnstall]⟩
      obtain ⟨os, hos, hsend⟩ := hsend
      rw [hos]
      exact hsend
  stalled_unstall s now := update_self _ _ _

/-! ### Inputs -/

theorem TakesFrom.trans (h : TakesFrom cfg input s s') (h' : TakesFrom cfg input s' s'') :
    TakesFrom cfg input s s'' := by
  obtain ⟨hle, os, hos, hcall⟩ := h
  obtain ⟨hle', os', hos', hcall'⟩ := h'
  refine ⟨hle'.trans hle, os ++ os', by rw [hos', hos, append_assoc], fun hcap => ?_⟩
  rw [count_append, hcall hcap, hcall' (hle.trans hcap)]
  split_ifs <;> omega

theorem TakesFrom.of_eq (hq : s'.inputQueues input = s.inputQueues input)
    (hos : ∃ os, s'.outputs = s.outputs ++ os ∧ RouterOutput.unstall input ∉ os) : TakesFrom cfg input s s' := by
  obtain ⟨os, hos, hno⟩ := hos
  refine ⟨by rw [hq], os, hos, fun hcap => ?_⟩
  rw [count_eq_zero_of_not_mem hno, hq, if_neg (by omega)]

theorem TakesFrom.foldl {ι : Type*} {f : RouterV2 → ι → RouterV2} (hf : ∀ s i, TakesFrom cfg input s (f s i))
    (is : List ι) : TakesFrom cfg input s (is.foldl f s) := by
  induction is generalizing s with
  | nil => exact .of_eq rfl ⟨[], by simp⟩
  | cons i is ih => exact (hf s i).trans ih

theorem sendOutput_takesFrom (input output : Nat) : TakesFrom cfg input s (s.sendOutput env output) := by
  rw [sendOutput]
  split
  · exact .of_eq rfl ⟨[], by simp⟩
  · split
    · exact .of_eq rfl ⟨[], by simp⟩
    · exact .of_eq rfl ⟨[_], rfl, by simp⟩

theorem moveFlit_takesFrom {input' : Nat} {rest : List Flit} (input : Nat) (hq : s.inputQueues input' = flit :: rest) :
    TakesFrom cfg input s (s.moveFlit cfg input' output flit rest) := by
  by_cases heq : input' = input
  · subst heq
    refine ⟨?_, _, moveFlit_outputs, fun hcap => ?_⟩
    · rw [moveFlit_inputQueues, update_self, hq, length_cons]
      exact Nat.le_succ _
    · rw [hq, length_cons] at hcap
      rw [moveFlit_inputQueues, update_self, hq, length_cons]
      by_cases hfull : rest.length + 1 = cfg.queueCapacity input'
      · rw [if_pos hfull, if_pos ⟨hfull, by omega⟩, count_singleton_self]
      · rw [if_neg hfull, if_neg fun h => hfull h.1, count_nil]
  · refine .of_eq (by rw [moveFlit_inputQueues, update_of_ne (Ne.symm heq)]) ⟨_, moveFlit_outputs, ?_⟩
    split
    · simpa using Ne.symm heq
    · exact not_mem_nil

theorem arbitrate_takesFrom (input output : Nat) :
    TakesFrom cfg input s (arbitrate cfg full heads s output) := by
  obtain ⟨arbiters, h | ⟨input', flit, rest, hq, -, -, h⟩⟩ := arbitrate_cases cfg full heads s output
  · rw [h]
    exact .of_eq rfl ⟨[], by simp⟩
  · rw [h]
    exact (moveFlit_takesFrom input hq).trans (.of_eq rfl ⟨[], by simp⟩)

theorem fsmHandler_takesFrom (input : Nat) (h : s.fsmHandler cfg env = some s') : TakesFrom cfg input s s' := by
  rw [fsmHandler, map_eq_some_iff] at h
  obtain ⟨heads, -, rfl⟩ := h
  exact (TakesFrom.foldl (fun s i => sendOutput_takesFrom input i) _).trans
    (TakesFrom.foldl (fun s i => arbitrate_takesFrom input i) _)

def receiver (cfg : RouterV2Config) (input : Nat) : Receiver Flit where
  State := RouterV2
  Event := RouterEnv × RouterEvent
  Env := RouterEnv
  step s e := match e.2 with
    | .linkReq input' _ => if input' = input then none else routerStep cfg s e
    | _ => routerStep cfg s e
  receive s env flit := (routerStep cfg s (env, .linkReq input flit)).map fun s =>
    (s, decide (.linkStatus input flit true ∈ s.outputs))
  Ok _ := True
  load s := (s.inputQueues input).length
  capacity := cfg.queueCapacity input
  unstalls s := s.outputs.count (.unstall input)
  step_ok s e s' _ hle h := by
    have htake : TakesFrom cfg input { s with outputs := [] } s' := by
      obtain ⟨env, e⟩ := e
      cases e with
      | fsm => exact fsmHandler_takesFrom input h
      | linkReq input' flit =>
        dsimp only at h
        split at h
        case isTrue => cases h
        case isFalse hne =>
          cases h
          exact .of_eq (update_of_ne (Ne.symm hne) _ _) ⟨[_], rfl, by simp⟩
      | linkUnstall output => cases h; exact .of_eq rfl ⟨[], by simp [linkUnstall]⟩
    obtain ⟨hle', os, hos, hcall⟩ := htake
    refine ⟨trivial, hle', ?_⟩
    rw [hos]
    exact hcall hle
  receive_ok s env flit s' full _ hlt h := by
    rw [map_eq_some_iff] at h
    obtain ⟨s₁, h₁, h⟩ := h
    cases h₁
    cases h
    have hlen : ((update s.inputQueues input (s.inputQueues input ++ [flit])) input).length =
        (s.inputQueues input).length + 1 := by rw [update_self, length_append, length_singleton]
    refine ⟨trivial, ?_, ?_⟩
    · show (update s.inputQueues input (s.inputQueues input ++ [flit]) input).length ≤ _
      rw [hlen]
      exact hlt
    · show _ ↔ (update s.inputQueues input (s.inputQueues input ++ [flit]) input).length = _
      rw [hlen, decide_eq_true_eq]
      have hmem : RouterOutput.linkStatus input flit true ∈ (linkReq cfg { s with outputs := [] } input flit).outputs ↔
          cfg.queueCapacity input ≤ (s.inputQueues input).length + 1 := by simp [linkReq, RouterV2.output]
      rw [hmem]
      omega

/-! ### Output FIFOs -/

def OutputsFit (s : RouterV2) : Prop := ∀ output, (s.outputQueues output).length ≤ outputDepth

/-- Only the arbiter of an output adds to its FIFO, one flit if it was not full at the start of the cycle. -/
theorem arbitrate_outputQueues {s : RouterV2} {output' : Nat} :
    ((arbitrate cfg full heads s output).outputQueues output').length ≤
      (s.outputQueues output').length + if output' = output ∧ full output = false then 1 else 0 := by
  obtain ⟨arbiters, h | ⟨input, flit, rest, -, hfull, -, h⟩⟩ := arbitrate_cases cfg full heads s output
  · rw [h]
    exact Nat.le_add_right _ _
  · rw [h]
    show ((s.moveFlit cfg input output flit rest).outputQueues output').length ≤ _
    rw [moveFlit_outputQueues]
    by_cases heq : output' = output
    · subst heq
      rw [update_self, length_append, length_singleton, if_pos ⟨rfl, hfull⟩]
    · rw [update_of_ne heq]
      exact Nat.le_add_right _ _

theorem foldl_arbitrate_outputQueues :
    ∀ {ports : List Nat} {s : RouterV2}, ports.Nodup →
      ((ports.foldl (arbitrate cfg full heads) s).outputQueues output).length ≤
      (s.outputQueues output).length + if output ∈ ports ∧ full output = false then 1 else 0
  | [], _, _ => Nat.le_add_right _ _
  | port :: ports, s, hnd => by
    obtain ⟨hport, hnd⟩ := nodup_cons.1 hnd
    have ih := @foldl_arbitrate_outputQueues ports (arbitrate cfg full heads s port) hnd
    have hstep := @arbitrate_outputQueues cfg port heads full s output
    rw [foldl_cons]
    by_cases heq : output = port
    · subst heq
      rw [if_neg fun h => hport h.1] at ih
      simp only [true_and] at hstep
      simp only [mem_cons_self, true_and]
      omega
    · rw [if_neg fun h => heq h.1] at hstep
      have hmem : output ∈ port :: ports ↔ output ∈ ports := by rw [mem_cons, or_iff_right heq]
      simp only [hmem]
      omega

theorem sendOutput_outputQueues (output output' : Nat) :
    ((s.sendOutput env output').outputQueues output).length ≤ (s.outputQueues output).length := by
  rw [sendOutput]
  split
  case h_1 => exact le_rfl
  case h_2 flit rest hq =>
    split
    case isTrue => exact le_rfl
    case isFalse =>
      show (update s.outputQueues output' rest output).length ≤ _
      rw [update_apply]
      split
      case isTrue heq => subst heq; rw [hq]; exact Nat.le_succ _
      case isFalse => exact le_rfl

theorem foldl_sendOutput_outputQueues (output : Nat) : ∀ (ports : List Nat) (s : RouterV2),
    ((ports.foldl (sendOutput env) s).outputQueues output).length ≤ (s.outputQueues output).length
  | [], _ => le_rfl
  | port :: ports, _ => (foldl_sendOutput_outputQueues output ports _).trans (sendOutput_outputQueues output port)

theorem routerStep_outputsFit {e : RouterEnv × RouterEvent} (hs : s.OutputsFit) (h : routerStep cfg s e = some s') :
    s'.OutputsFit := by
  obtain ⟨env, e⟩ := e
  cases e with
  | fsm =>
    rw [routerStep] at h
    dsimp only at h
    rw [fsmHandler, map_eq_some_iff] at h
    obtain ⟨heads, -, rfl⟩ := h
    intro output
    have hfold := @foldl_arbitrate_outputQueues cfg output heads
      (fun output => decide (outputDepth ≤ (s.outputQueues output).length))
      (List.range cfg.nbPorts) ((List.range cfg.nbPorts).foldl (sendOutput env) { s with outputs := [] })
      nodup_range
    have hsend := @foldl_sendOutput_outputQueues env output (List.range cfg.nbPorts) { s with outputs := [] }
    have hout := hs output
    refine hfold.trans ?_
    replace hsend : _ ≤ (s.outputQueues output).length := hsend
    split
    case isTrue hroom =>
      have hlt : (s.outputQueues output).length < outputDepth := not_le.1 (of_decide_eq_false hroom.2)
      omega
    case isFalse => omega
  | linkReq input flit => cases h; exact hs
  | linkUnstall output => cases h; exact hs

end RouterV2

end Router

/-! ## Network interfaces -/

section NetworkInterface

variable {cfg : NiConfig} {env : Env} {s s' s'' : NetworkInterfaceV2} {nw : Nw}

/-- A flit of a link that its target takes. -/
def Output.handedOn (nw : Nw) : Output → Option Flit
  | .target wide nw' flit reply => if nw' = nw ∧ wide = flit.wide ∧ reply ≠ .denied then some flit else none
  | _ => none

/-- The assertion of `forward_to_target` has failed for a link. -/
def Output.isStalledOn (nw : Nw) : Output → Bool
  | .stalledLink nw' _ => nw' == nw
  | _ => false

/-- An output that is none of the calls for a link. -/
def Output.IsOther (nw : Nw) (o : Output) : Prop :=
  o.handedOn nw = none ∧ o ≠ .unstall nw ∧ o.isStalledOn nw = false

theorem Output.IsAside.isOther {o : Output} (h : o.IsAside) : o.IsOther nw := by
  cases o <;> first | exact h.elim | exact ⟨rfl, by simp, rfl⟩

namespace NetworkInterfaceV2

/-- The flits of a link that are held, as they are presented to the targets. -/
def heldOn (s : NetworkInterfaceV2) (nw : Nw) : List Flit :=
  ((s.held false nw).toList ++ (s.held true nw).toList).map fun h => makeTargetReq h.flit

/-- Each held flit is in the slot of its target, as the target has denied it. -/
def HeldOk (s : NetworkInterfaceV2) (nw : Nw) : Prop :=
  ∀ wide h, s.held wide nw = some h → h.flit.wide = wide ∧ (h.toSend = true → makeTargetReq h.flit = h.flit)

/-- What a function of the interface does to the flits of a link: it hands held ones to their target, calling the sender
back for each, and holds no other one. -/
structure OnLink (nw : Nw) (s s' : NetworkInterfaceV2) : Prop where
  outputs : ∃ os, s'.outputs = s.outputs ++ os ∧
    os.filterMap (·.handedOn nw) ++ s'.heldOn nw = s.heldOn nw ∧
    os.count (.unstall nw) = (os.filterMap (·.handedOn nw)).length ∧ ∀ o ∈ os, o.isStalledOn nw = false
  ok : s.HeldOk nw → s'.HeldOk nw

theorem OnLink.trans (h : OnLink nw s s') (h' : OnLink nw s' s'') : OnLink nw s s'' := by
  obtain ⟨os, hos, hheld, hcall, hno⟩ := h.outputs
  obtain ⟨os', hos', hheld', hcall', hno'⟩ := h'.outputs
  refine ⟨⟨os ++ os', by rw [hos', hos, append_assoc], ?_, ?_, fun o ho => ?_⟩, fun hok => h'.ok (h.ok hok)⟩
  · rw [filterMap_append, append_assoc, hheld', hheld]
  · rw [count_append, filterMap_append, length_append, hcall, hcall']
  · rcases mem_append.1 ho with ho | ho
    · exact hno o ho
    · exact hno' o ho

theorem OnLink.of_others (hheld : ∀ wide, s'.held wide nw = s.held wide nw)
    (hos : ∃ os, s'.outputs = s.outputs ++ os ∧ ∀ o ∈ os, o.IsOther nw) : OnLink nw s s' := by
  obtain ⟨os, hos, hother⟩ := hos
  have hhanded : os.filterMap (·.handedOn nw) = [] := filterMap_eq_nil_iff.2 fun o ho => (hother o ho).1
  have hcall : os.count (.unstall nw) = 0 := count_eq_zero_of_not_mem fun ho => (hother _ ho).2.1 rfl
  refine ⟨⟨os, hos, ?_, by rw [hcall, hhanded]; rfl, fun o ho => (hother o ho).2.2⟩, fun hok wide h => ?_⟩
  · rw [hhanded, nil_append, heldOn, heldOn, hheld, hheld]
  · rw [hheld]
    exact hok wide h

theorem OnLink.of_quiet (hheld : s'.held = s.held) (hos : s'.outputs = s.outputs) : OnLink nw s s' :=
  .of_others (fun _ => by rw [hheld]) ⟨[], by rw [hos, append_nil], fun o ho => by cases ho⟩

theorem OnLink.refl (nw : Nw) (s : NetworkInterfaceV2) : OnLink nw s s := .of_quiet rfl rfl

theorem Aside.onLink (h : Aside env s s') : OnLink nw s s' := by
  obtain ⟨os, hos, hno⟩ := h.outputs
  have hheld : s'.held = s.held := congrArg Prod.fst h.targets
  exact .of_others (fun _ => by rw [hheld]) ⟨os, hos, fun o ho => (hno o ho).isOther⟩

theorem onLink_output {o : Output} (ho : o.IsOther nw) : OnLink nw s (s.output o) :=
  .of_others (fun _ => rfl) ⟨[o], rfl, by simpa using ho⟩

variable {nw' : Nw} {wide : Bool}

theorem onLink_endTarget : OnLink nw s (s.endTarget flit) := by
  rw [endTarget]
  split
  · exact .of_quiet rfl rfl
  · exact .refl nw s

theorem onLink_handleResponse : OnLink nw s (s.handleResponse env flit) := by
  obtain ⟨t, ht, heq⟩ := @handleResponse_eq env s flit
  rw [heq]
  exact ht.onLink.trans onLink_endTarget

theorem onLink_beginTarget : OnLink nw s (s.beginTarget flit) := by
  rw [beginTarget]
  split
  · exact .of_quiet rfl rfl
  · exact .refl nw s

/-- After the call of the target, an interface only does what does not touch the held flits. -/
theorem onLink_sendToTarget :
    OnLink nw (s.output (.target wide nw' flit (env.target wide nw'))) (s.sendToTarget env wide nw' flit).2 ∧
      (s.sendToTarget env wide nw' flit).1 = decide (env.target wide nw' = .denied) := by
  rw [sendToTarget]
  dsimp only
  split
  case h_1 h => exact ⟨.refl nw _, by simp [h]⟩
  case h_2 h => exact ⟨.refl nw _, by simp [h]⟩
  case h_3 h =>
    split
    · exact ⟨.of_quiet rfl rfl, by simp [h]⟩
    · exact ⟨onLink_handleResponse, by simp [h]⟩

theorem onLink_hold_other {held : Option HeldReq} (hne : nw ≠ nw') : OnLink nw s (s.hold wide nw' held) := by
  refine .of_others (fun wide' => ?_) ⟨[], by simp [hold], fun o ho => by cases ho⟩
  rw [hold_held, if_neg fun h => hne h.2]

theorem onLink_sendToTarget_other (hne : nw ≠ nw') : OnLink nw s (s.sendToTarget env wide nw' flit).2 := by
  refine .trans (onLink_output ⟨?_, by simp, rfl⟩) onLink_sendToTarget.1
  rw [handedOn, if_neg fun h => hne h.1.symm]

theorem onLink_forwardToTarget_other (hne : nw ≠ nw') : OnLink nw s (s.forwardToTarget cfg env flit nw').2 := by
  have hassert : OnLink nw s (if (s.held flit.wide nw').isSome then s.output (.stalledLink nw' flit) else s) := by
    split
    · exact onLink_output ⟨rfl, by simp, by simpa [isStalledOn] using hne.symm⟩
    · exact .refl nw s
  rw [forwardToTarget]
  generalize (if (s.held flit.wide nw').isSome then s.output (.stalledLink nw' flit) else s) = t at hassert ⊢
  dsimp only
  split
  · exact hassert.trans (onLink_hold_other hne)
  · have hsend : OnLink nw s ((t.beginTarget flit).sendToTarget env flit.wide nw' (makeTargetReq flit)).2 :=
      (hassert.trans onLink_beginTarget).trans (onLink_sendToTarget_other hne)
    dsimp only
    split
    · exact hsend.trans (onLink_hold_other hne)
    · exact hsend

theorem heldOn_eq_nil : s.heldOn nw = [] ↔ ∀ wide, s.held wide nw = none := by
  rw [heldOn, map_eq_nil_iff, append_eq_nil_iff, toList_eq_nil_iff, toList_eq_nil_iff]
  exact ⟨fun h wide => by cases wide; exacts [h.1, h.2], fun h => ⟨h false, h true⟩⟩

theorem heldOn_hold {h : HeldReq} (hnil : s.heldOn nw = []) :
    (s.hold wide nw (some h)).heldOn nw = [makeTargetReq h.flit] := by
  rw [heldOn_eq_nil] at hnil
  rw [heldOn, hold_held, hold_held, hnil, hnil]
  cases wide <;> simp

theorem heldOn_unhold {h : HeldReq} (hheld : s.held wide nw = some h) (hle : (s.heldOn nw).length ≤ 1) :
    s.heldOn nw = [makeTargetReq h.flit] ∧ (s.hold wide nw none).heldOn nw = [] := by
  have hother : s.held (!wide) nw = none := by
    rw [heldOn, length_map, length_append] at hle
    cases hn : s.held (!wide) nw with
    | none => rfl
    | some h' =>
      cases wide <;> simp only [Bool.not_false, Bool.not_true] at hn <;> rw [hheld, hn] at hle <;> simp at hle
  constructor
  · rw [heldOn]
    cases wide <;> simp only [Bool.not_false, Bool.not_true] at hother <;> rw [hheld, hother] <;> rfl
  · rw [heldOn_eq_nil]
    intro wide'
    rw [hold_held]
    split
    case isTrue => rfl
    case isFalse hne =>
      have heq : wide' = !wide := by
        cases wide <;> cases wide' <;> simp at hne ⊢
      rw [heq, hother]

/-- A flit that goes to its target while none of its link is held: it is handed to the target, or held. -/
theorem forwardToTarget_spec (hok : s.HeldOk nw) (hnil : s.heldOn nw = []) :
    (∃ os, (s.forwardToTarget cfg env flit nw).2.outputs = s.outputs ++ os ∧
      os.filterMap (·.handedOn nw) ++ (s.forwardToTarget cfg env flit nw).2.heldOn nw = [makeTargetReq flit] ∧
      os.count (.unstall nw) = 0 ∧ (∀ o ∈ os, o.isStalledOn nw = false)) ∧
    ((s.forwardToTarget cfg env flit nw).1 = true ↔ (s.forwardToTarget cfg env flit nw).2.heldOn nw ≠ []) ∧
    (s.forwardToTarget cfg env flit nw).2.HeldOk nw := by
  have hnone := heldOn_eq_nil.1 hnil
  have hhold : ∀ (t : NetworkInterfaceV2) (toSend : Bool) (f : Flit), f.wide = flit.wide →
      (toSend = true → makeTargetReq f = f) → t.HeldOk nw → (t.hold flit.wide nw (some ⟨f, toSend⟩)).HeldOk nw := by
    intro t toSend f hf hsend htok wide h hh
    rw [hold_held] at hh
    split at hh
    case isTrue heq => cases hh; exact ⟨hf.trans heq.1.symm, hsend⟩
    case isFalse => exact htok wide h hh
  rw [forwardToTarget, hnone]
  simp only [isSome_none, Bool.false_eq_true, if_false]
  split
  case isTrue =>
    -- the limit of the target
    refine ⟨⟨[], by simp [hold], ?_, rfl, fun o ho => by cases ho⟩, ?_,
      hhold s false flit rfl (fun h => by cases h) hok⟩
    · rw [heldOn_hold hnil]
      rfl
    · rw [heldOn_hold hnil]
      simp
  case isFalse =>
    obtain ⟨hcall, hdenied⟩ := @onLink_sendToTarget (makeTargetReq flit) env (s.beginTarget flit) nw nw flit.wide
    have hbegin : (s.beginTarget flit).held = s.held ∧ (s.beginTarget flit).outputs = s.outputs := by
      rw [beginTarget]
      split <;> exact ⟨rfl, rfl⟩
    generalize (s.beginTarget flit).sendToTarget env flit.wide nw (makeTargetReq flit) = r at hcall hdenied ⊢
    obtain ⟨denied, t⟩ := r
    obtain ⟨hheld, ho⟩ := hbegin
    obtain ⟨os, hos, hhand, hcount, hno⟩ := hcall.outputs
    dsimp only at hos hdenied hhand hcount ⊢
    have hstart : ((s.beginTarget flit).output (.target flit.wide nw (makeTargetReq flit)
        (env.target flit.wide nw))).heldOn nw = [] := by
      rw [heldOn_eq_nil]
      show ∀ wide, (s.beginTarget flit).held wide nw = none
      rw [hheld]
      exact hnone
    rw [hstart, append_eq_nil_iff] at hhand
    obtain ⟨hhand, hnil'⟩ := hhand
    replace hos : t.outputs = s.outputs ++
        ([.target flit.wide nw (makeTargetReq flit) (env.target flit.wide nw)] ++ os) := by
      rw [hos, ← append_assoc, ← ho]
      rfl
    have htok : t.HeldOk nw := hcall.ok (by
      intro wide h
      show (s.beginTarget flit).held wide nw = some h → _
      rw [hheld]
      exact hok wide h)
    have hstalled : ∀ o ∈ [target flit.wide nw (makeTargetReq flit) (env.target flit.wide nw)] ++ os,
        o.isStalledOn nw = false := by
      intro o ho
      rcases mem_append.1 ho with ho | ho
      · rw [mem_singleton.1 ho]
        rfl
      · exact hno o ho
    have hcount' : ([target flit.wide nw (makeTargetReq flit) (env.target flit.wide nw)] ++ os).count
      (.unstall nw) = 0 := by
      rw [count_append, hcount, hhand]
      simp
    by_cases hd : env.target flit.wide nw = .denied
    · -- the target denies it
      rw [decide_eq_true hd] at hdenied
      subst hdenied
      refine ⟨⟨_, hos, ?_, hcount', hstalled⟩, ?_, hhold t true (makeTargetReq flit) rfl (fun _ => rfl) htok⟩
      · rw [if_pos rfl, heldOn_hold hnil', filterMap_append, hhand, hd]
        simp [handedOn, makeTargetReq]
      · rw [if_pos rfl, heldOn_hold hnil']
        simp
    · rw [decide_eq_false hd] at hdenied
      subst hdenied
      refine ⟨⟨_, hos, ?_, hcount', hstalled⟩, ?_, htok⟩
      · rw [if_neg Bool.false_ne_true, hnil', filterMap_append, hhand]
        simp [handedOn, hd, makeTargetReq]
      · rw [if_neg Bool.false_ne_true, hnil']
        simp

/-! ### Held flits -/

/-- At most one flit of a link is held, in the slot of its target. -/
structure HoldsOne (s : NetworkInterfaceV2) (nw : Nw) : Prop where
  ok : s.HeldOk nw
  le : (s.heldOn nw).length ≤ 1

theorem OnLink.holdsOne (h : OnLink nw s s') (hs : s.HoldsOne nw) : s'.HoldsOne nw := by
  obtain ⟨os, -, hheld, -⟩ := h.outputs
  have hle := hs.le
  rw [← hheld, length_append] at hle
  exact ⟨h.ok hs.ok, by omega⟩

theorem HeldOk.unhold (hs : s.HeldOk nw) : (s.hold wide nw none).HeldOk nw := by
  intro wide' h hh
  rw [hold_held] at hh
  split at hh
  · cases hh
  · exact hs wide' h hh

theorem onLink_forwardHeldFlit (hs : s.HoldsOne nw) :
    OnLink nw s (s.forwardHeldFlit cfg env wide nw') := by
  rw [forwardHeldFlit]
  split
  case h_2 => exact .refl nw s
  case h_1 flit hheld =>
    by_cases hne : nw = nw'
    · subst hne
      obtain ⟨hon, hnil⟩ := heldOn_unhold hheld hs.le
      obtain ⟨⟨os, hos, hhand, hcount, hno⟩, hfull, hok'⟩ := @forwardToTarget_spec flit cfg env _ nw hs.ok.unhold hnil
      generalize (s.hold wide nw none).forwardToTarget cfg env flit nw = r at hos hhand hfull hok' ⊢
      obtain ⟨full, t⟩ := r
      dsimp only at hos hhand hfull hok' ⊢
      cases full with
      | true =>
        -- it is held again
        obtain ⟨f, fs, hcons⟩ := exists_cons_of_ne_nil (hfull.1 rfl)
        have hhanded : os.filterMap (·.handedOn nw) = [] := by
          rw [hcons] at hhand
          cases hlist : os.filterMap (·.handedOn nw) with
          | nil => rfl
          | cons g gs => rw [hlist] at hhand; simp at hhand
        rw [if_pos rfl]
        exact ⟨⟨os, hos, by rw [hhand, hon], by rw [hcount, hhanded]; rfl, hno⟩, fun _ => hok'⟩
      | false =>
        have hnil' : t.heldOn nw = [] := by
          by_contra hc
          exact Bool.false_ne_true (hfull.2 hc)
        rw [hnil', append_nil] at hhand
        rw [if_neg Bool.false_ne_true]
        refine ⟨⟨os ++ [.unstall nw], ?_, ?_, ?_, ?_⟩, fun _ => hok'⟩
        · rw [output, hos, append_assoc]
          rfl
        · rw [filterMap_append, hhand, hon]
          show _ ++ t.heldOn nw = _
          rw [hnil']
          simp [handedOn]
        · rw [count_append, hcount, filterMap_append, hhand]
          simp [handedOn]
        · intro o ho
          rcases mem_append.1 ho with ho | ho
          · exact hno o ho
          · rw [mem_singleton.1 ho]
            rfl
    · have hfwd : OnLink nw s ((s.hold wide nw' none).forwardToTarget cfg env flit nw').2 :=
        (onLink_hold_other hne).trans (onLink_forwardToTarget_other hne)
      dsimp only
      split
      · exact hfwd
      · exact hfwd.trans (onLink_output ⟨rfl, by simpa using Ne.symm hne, rfl⟩)

theorem onLink_forwardHeld (hs : s.HoldsOne nw) : OnLink nw s (s.forwardHeld cfg env) := by
  rw [forwardHeld]
  generalize heldSlots = slots
  induction slots generalizing s with
  | nil => exact .refl nw s
  | cons slot slots ih =>
    have hflit := @onLink_forwardHeldFlit cfg env s nw slot.2 slot.1 hs
    exact hflit.trans (ih (hflit.holdsOne hs))

theorem onLink_retryFlit (hs : s.HoldsOne nw) : OnLink nw s (retryFlit env wide s nw') := by
  rw [retryFlit]
  split
  case h_2 => exact .refl nw s
  case h_1 flit hheld =>
    by_cases hne : nw = nw'
    · subst hne
      obtain ⟨hcall, hdenied⟩ := @onLink_sendToTarget flit env s nw nw wide
      have hsame : (s.sendToTarget env wide nw flit).2.held = s.held := sendToTarget_held
      generalize s.sendToTarget env wide nw flit = r at hcall hdenied hsame ⊢
      obtain ⟨denied, t⟩ := r
      dsimp only at hcall hdenied hsame ⊢
      by_cases hd : env.target wide nw = .denied
      · -- it is denied again
        rw [decide_eq_true hd] at hdenied
        rw [if_pos hdenied]
        refine .trans (onLink_output ⟨?_, by simp, rfl⟩) hcall
        rw [handedOn, if_neg fun h => h.2.2 hd]
      · rw [decide_eq_false hd] at hdenied
        rw [hdenied, if_neg Bool.false_ne_true]
        have hflit : makeTargetReq flit = flit := (hs.ok wide _ hheld).2 rfl
        obtain rfl : flit.wide = wide := (hs.ok wide _ hheld).1
        have htheld : t.heldOn nw = s.heldOn nw := by rw [heldOn, heldOn, hsame]
        obtain ⟨hon, -⟩ := heldOn_unhold hheld hs.le
        obtain ⟨-, hnil⟩ := @heldOn_unhold t nw flit.wide _ (by rw [hsame]; exact hheld) (by rw [htheld]; exact hs.le)
        obtain ⟨os, hos, hhand, hcount, hno⟩ := hcall.outputs
        have hquiet : os.filterMap (·.handedOn nw) = [] := by
          have hlen := congrArg length hhand
          rw [htheld, length_append] at hlen
          exact length_eq_zero_iff.1 (Nat.add_eq_right.1 hlen)
        rw [hquiet] at hcount
        refine ⟨⟨[.target flit.wide nw flit (env.target flit.wide nw)] ++ os ++ [.unstall nw], ?_, ?_, ?_, ?_⟩,
          fun hok => ?_⟩
        · show t.outputs ++ [_] = _
          rw [hos]
          simp [output]
        · show _ ++ (t.hold flit.wide nw none).heldOn nw = _
          rw [hnil, hon, filterMap_append, filterMap_append, hquiet, hflit]
          simp [handedOn, hd]
        · rw [filterMap_append, filterMap_append, hquiet, count_append, count_append, hcount]
          simp [handedOn, hd]
        · intro o ho
          rcases mem_append.1 ho with ho | ho
          · rcases mem_append.1 ho with ho | ho
            · rw [mem_singleton.1 ho]
              rfl
            · exact hno o ho
          · rw [mem_singleton.1 ho]
            rfl
        · exact (hcall.ok hok).unhold
    · have hsend : OnLink nw s (s.sendToTarget env wide nw' flit).2 := onLink_sendToTarget_other hne
      dsimp only
      split
      · exact hsend
      · exact (hsend.trans (onLink_hold_other hne)).trans (onLink_output ⟨rfl, by simpa using Ne.symm hne, rfl⟩)

theorem onLink_retryTarget (hs : s.HoldsOne nw) : OnLink nw s (s.retryTarget env wide) := by
  have hfold : ∀ (nws : List Nw) (s : NetworkInterfaceV2), s.HoldsOne nw →
    OnLink nw s (nws.foldl (retryFlit env wide) s) := by
    intro nws
    induction nws with
    | nil => exact fun s _ => .refl nw s
    | cons nw' nws ih =>
      intro s hs
      have hflit := @onLink_retryFlit env s nw nw' wide hs
      exact hflit.trans (ih _ (hflit.holdsOne hs))
  exact (hfold _ s hs).trans (@aside_enqueueFsm env _).onLink

theorem onLink_response : OnLink nw s (s.response cfg env wide flit) := by
  have haccept : OnLink nw s (s.acceptResponse cfg wide flit).2 := (@aside_acceptResponse cfg env s flit wide).onLink
  have hack : ∀ accepted, (respAck wide flit accepted).IsOther nw := fun accepted => ⟨rfl, by simp, rfl⟩
  rw [response]
  generalize s.acceptResponse cfg wide flit = r at haccept
  obtain ⟨accepted, t⟩ := r
  dsimp only at haccept ⊢
  split
  · exact (haccept.trans onLink_handleResponse).trans (onLink_output (hack _))
  · exact haccept.trans (onLink_output (hack _))

theorem onLink_fsmPhase {phase : FsmPhase} (hs : phase = .forwardHeld → s.HoldsOne nw) :
    OnLink nw s (s.fsmPhase cfg env phase) := by
  by_cases hresponse : phase = .response
  · subst hresponse
    rw [fsmPhase]
    split
    · exact .refl nw s
    · split
      · refine .trans ?_ onLink_handleResponse
        exact .of_quiet rfl rfl
      · exact .refl nw s
  · by_cases hforward : phase = .forwardHeld
    · subst hforward
      rw [fsmPhase]
      split
      · have hclear : OnLink nw s { s with forwardHeldPending := false } := .of_quiet rfl rfl
        exact hclear.trans (onLink_forwardHeld (hclear.holdsOne (hs rfl)))
      · exact .refl nw s
    · exact (aside_fsmPhase hresponse hforward).onLink

/-! ### Events -/

def forTarget (flit : Flit) : Bool := !flit.isRsp && !(flit.opcode.isWrite && flit.isAddress)

/-- A flit from the link is handed to the target or held, and stalls the link iff it is held. -/
theorem linkReq_spec (hok : s.HeldOk nw) (hnil : s.heldOn nw = []) (h : s.linkReq cfg env nw flit = some s') :
    ∃ full os, s'.outputs = s.outputs ++ (os ++ [.linkStatus nw flit full]) ∧
      os.filterMap (·.handedOn nw) ++ s'.heldOn nw = (if forTarget flit then [makeTargetReq flit] else []) ∧
      (∀ o ∈ os, o.isStalledOn nw = false) ∧ (full = true ↔ s'.heldOn nw ≠ []) ∧ s'.HeldOk nw := by
  rw [linkReq] at h
  split at h
  case isTrue hrsp =>
    rw [map_eq_some_iff] at h
    obtain ⟨t, ht, rfl⟩ := h
    have hlink : OnLink nw s t := (@aside_linkRsp env _ _ _ ht).onLink
    obtain ⟨os, hos, hhand, -, hno⟩ := hlink.outputs
    rw [hnil, append_eq_nil_iff] at hhand
    have hnil' : (t.output (.linkStatus nw flit false)).heldOn nw = [] := hhand.2
    refine ⟨false, os, by rw [output, hos, append_assoc], ?_, hno, ?_, hlink.ok hok⟩
    · rw [hhand.1, hnil', forTarget, hrsp]
      rfl
    · rw [hnil']
      simp
  case isFalse hrsp =>
    split at h
    case isTrue haddr =>
      cases h
      have hnil' : (s.output (.linkStatus nw flit false)).heldOn nw = [] := hnil
      refine ⟨false, [], rfl, ?_, forall_mem_nil _, ?_, hok⟩
      · rw [hnil', forTarget, haddr, Bool.not_true, Bool.and_false]
        rfl
      · rw [hnil']
        simp
    case isFalse haddr =>
      obtain ⟨⟨os, hos, hhand, -, hno⟩, hfull, hok'⟩ := @forwardToTarget_spec flit cfg env s nw hok hnil
      generalize s.forwardToTarget cfg env flit nw = r at h hos hhand hfull hok'
      obtain ⟨full, t⟩ := r
      cases h
      dsimp only at hos hhand hfull hok'
      refine ⟨full, os, by rw [output, hos, append_assoc], ?_, hno, hfull, hok'⟩
      rw [forTarget, Bool.eq_false_iff.2 hrsp, Bool.eq_false_iff.2 haddr]
      exact hhand

theorem event_onLink {e : NiEvent} (hs : s.HoldsOne nw) (he : ∀ flit, e ≠ .linkReq nw flit)
    (h : s.event cfg env e = some s') : OnLink nw s s' := by
  cases e with
  | req wide req => exact (aside_handleReq h).onLink
  | linkReq nw' flit =>
    have hne : nw ≠ nw' := fun heq => he flit (by rw [heq])
    have hstatus : ∀ full, (linkStatus nw' flit full).IsOther nw := fun full => ⟨rfl, by simp, rfl⟩
    rw [event, linkReq] at h
    split at h
    · rw [map_eq_some_iff] at h
      obtain ⟨t, ht, rfl⟩ := h
      exact (@aside_linkRsp env _ _ _ ht).onLink.trans (onLink_output (hstatus _))
    · split at h
      · cases h
        exact onLink_output (hstatus _)
      · cases h
        exact (onLink_forwardToTarget_other hne).trans (onLink_output (hstatus _))
  | linkUnstall nw' =>
    cases h
    exact .of_quiet rfl rfl
  | response wide flit => cases h; exact onLink_response
  | retryTarget wide => cases h; exact onLink_retryTarget hs
  | fsm =>
    rw [event] at h
    split at h
    · cases h
      exact .of_quiet rfl rfl
    · cases h
  | phase =>
    rw [event] at h
    split at h
    · cases h
    · cases h
      have hpop : ∀ todo, OnLink nw s { s with fsmTodo := todo } := fun todo => .of_quiet rfl rfl
      exact (hpop _).trans (onLink_fsmPhase fun _ => (hpop _).holdsOne hs)

/-- The queue of a link of an interface, at the end of the link. -/
def sender (cfg : NiConfig) (nw : Nw) : Sender Flit where
  State := NetworkInterfaceV2
  Event := Env × NiEvent
  step s e := match e.2 with
    | .linkUnstall nw' => if nw' = nw then none else niStep cfg s e
    | _ => niStep cfg s e
  stalled s := (s.queue nw).stalled
  sent s := s.outputs.filterMap (·.sentOn nw)
  answer e := e.1.linkFull nw
  unstall s now := { s with outputs := [] }.unstall { now } nw
  sends s e s' h := by
    have hne : e.2 ≠ .linkUnstall nw ∧ niStep cfg s e = some s' := by
      obtain ⟨env, e⟩ := e
      dsimp only at h ⊢
      split at h
      · split at h
        case isTrue => cases h
        case isFalse hne => exact ⟨by simpa using hne, h⟩
      case h_2 hne => exact ⟨hne nw, h⟩
    obtain ⟨os, hos, hsend⟩ := event_sendsOn hne.1 hne.2
    rw [hos]
    exact hsend
  stalled_unstall s now := by
    show (update s.queue nw _ nw).stalled = false
    rw [update_self]

/-- An interface at the end of a link, with what has happened on the link and what its targets owe it. -/
structure LinkedInterface where
  ni : NetworkInterfaceV2 := {}
  /-- The flits that came over the link for a target. -/
  arrived : List Flit := []
  /-- The flits that the targets have taken. -/
  handed : List Flit := []
  /-- The flits that came while one was held, and the failed assertions of `forward_to_target`. -/
  late : Nat := 0
  debts : Debts := {}

/-- The interface after an event, with what the event has done on the link. -/
def LinkedInterface.record (s : LinkedInterface) (nw : Nw) (e : NiEvent) (ni : NetworkInterfaceV2) : LinkedInterface :=
  { s with
    ni := ni
    handed := s.handed ++ ni.outputs.filterMap (·.handedOn nw)
    late := s.late + ni.outputs.countP (·.isStalledOn nw)
    debts := s.debts.log e ni.outputs }

def LinkedInterface.arrive (s : LinkedInterface) (nw : Nw) (flit : Flit) : LinkedInterface :=
  { s with
    arrived := if forTarget flit then s.arrived ++ [flit] else s.arrived
    late := if s.ni.heldOn nw = [] then s.late else s.late + 1 }

/-- What came for the targets has been handed to them once and in order, but for the flit that is held; none came while
another was held. -/
structure InOrder (nw : Nw) (s : LinkedInterface) : Prop where
  order : s.arrived.map makeTargetReq = s.handed ++ s.ni.heldOn nw
  late : s.late = 0

def LinkedInterface.step (cfg : NiConfig) (nw : Nw) (s : LinkedInterface) (e : Env × NiEvent) :
    Option LinkedInterface :=
  match e.2 with
  | .linkReq nw' _ => if nw' = nw then none else (niStep cfg s.ni e).map (s.record nw e.2)
  | _ => (niStep cfg s.ni e).map (s.record nw e.2)

/-- A flit on its link: the answer is what `link_req` returns. -/
def LinkedInterface.receive (cfg : NiConfig) (nw : Nw) (s : LinkedInterface) (env : Env) (flit : Flit) :
    Option (LinkedInterface × Bool) :=
  (niStep cfg s.ni (env, .linkReq nw flit)).map fun ni =>
    ((s.arrive nw flit).record nw (.linkReq nw flit) ni, decide (ni.outputs.getLast? = some (.linkStatus nw flit true)))

theorem LinkedInterface.step_onLink {s s' : LinkedInterface} {e : Env × NiEvent} (hs : s.ni.HoldsOne nw)
    (h : s.step cfg nw e = some s') :
    ∃ ni, s' = s.record nw e.2 ni ∧ niStep cfg s.ni e = some ni ∧ OnLink nw { s.ni with outputs := [] } ni := by
  have hstep : (∀ flit, e.2 ≠ .linkReq nw flit) ∧ (niStep cfg s.ni e).map (s.record nw e.2) = some s' := by
    obtain ⟨env, e⟩ := e
    rw [step] at h
    dsimp only at h ⊢
    split at h
    case h_1 nw' flit' =>
      split at h
      case isTrue => cases h
      case isFalse hne => exact ⟨fun flit heq => hne (NiEvent.linkReq.inj heq).1, h⟩
    case h_2 hne => exact ⟨fun flit => hne nw flit, h⟩
  obtain ⟨hne, hstep⟩ := hstep
  rw [map_eq_some_iff] at hstep
  obtain ⟨ni, hni, rfl⟩ := hstep
  exact ⟨ni, rfl, hni, event_onLink ⟨hs.ok, hs.le⟩ hne hni⟩

/-- The flits are handed to the target in the order they came in. -/
theorem InOrder.step {s s' : LinkedInterface} {e : Env × NiEvent} (hs : InOrder nw s) (hone : s.ni.HoldsOne nw)
    (h : s.step cfg nw e = some s') : InOrder nw s' := by
  obtain ⟨ni, rfl, -, hlink⟩ := LinkedInterface.step_onLink hone h
  obtain ⟨os, hos, hheld, -, hno⟩ := hlink.outputs
  rw [nil_append] at hos
  constructor
  · show s.arrived.map makeTargetReq = s.handed ++ ni.outputs.filterMap (·.handedOn nw) ++ ni.heldOn nw
    rw [append_assoc, hos, hheld]
    exact hs.order
  · show s.late + ni.outputs.countP (·.isStalledOn nw) = 0
    rw [hs.late, hos, countP_eq_zero.2 fun o ho => by rw [hno o ho]; exact Bool.false_ne_true]

theorem LinkedInterface.receive_spec {s s' : LinkedInterface} {full : Bool} (hs : s.ni.HoldsOne nw)
    (hnil : s.ni.heldOn nw = []) (h : s.receive cfg nw env flit = some (s', full)) :
    s'.ni.HoldsOne nw ∧ (full = true ↔ (s'.ni.heldOn nw).length = 1) ∧ (InOrder nw s → InOrder nw s') := by
  rw [receive, map_eq_some_iff] at h
  obtain ⟨ni, hni, h⟩ := h
  cases h
  have hspec := @linkReq_spec flit cfg env { s.ni with outputs := [] } ni nw hs.ok hnil hni
  obtain ⟨full, os, hos, hhand, hno, hfull, hok⟩ := hspec
  have hle : (ni.heldOn nw).length ≤ 1 := by
    have hlen := congrArg length hhand
    rw [length_append] at hlen
    cases hto : forTarget flit with
    | true => rw [hto, if_pos rfl, length_singleton] at hlen; omega
    | false => rw [hto, if_neg Bool.false_ne_true, length_nil] at hlen; omega
  rw [nil_append] at hos
  refine ⟨⟨hok, hle⟩, ?_, fun hin => ⟨?_, ?_⟩⟩
  · show decide (ni.outputs.getLast? = _) = true ↔ (ni.heldOn nw).length = 1
    rw [hos, getLast?_concat, decide_eq_true_eq]
    have hstatus : some (linkStatus nw flit full) = some (.linkStatus nw flit true) ↔ full = true := by simp
    rw [hstatus, hfull, ← length_pos_iff]
    omega
  · have harrived : ((s.arrive nw flit).arrived).map makeTargetReq =
        s.arrived.map makeTargetReq ++ if forTarget flit then [makeTargetReq flit] else [] := by
      rw [arrive]
      cases forTarget flit <;> simp
    have hhanded : ni.outputs.filterMap (·.handedOn nw) = os.filterMap (·.handedOn nw) := by
      rw [hos, filterMap_append, filterMap_cons_none rfl, filterMap_nil, append_nil]
    show ((s.arrive nw flit).arrived).map makeTargetReq =
      s.handed ++ ni.outputs.filterMap (·.handedOn nw) ++ ni.heldOn nw
    rw [harrived, hin.order, hnil, append_nil, hhanded, append_assoc, hhand]
  · show (if s.ni.heldOn nw = [] then s.late else s.late + 1) + ni.outputs.countP (·.isStalledOn nw) = 0
    rw [if_pos hnil, hin.late, hos, countP_eq_zero.2 fun o ho => ?_]
    rcases mem_append.1 ho with ho | ho
    · rw [hno o ho]
      exact Bool.false_ne_true
    · rw [mem_singleton.1 ho]
      exact Bool.false_ne_true

/-- What an interface keeps besides the flow control: the order of the flits, and what the held ones wait for. -/
def Keeps (cfg : NiConfig) (nw : Nw) (s : LinkedInterface) : Prop :=
  InOrder nw s ∧ Waiting cfg s.debts [] { s.ni with outputs := [] }

theorem Keeps.step {s s' : LinkedInterface} {e : Env × NiEvent} (hs : Keeps cfg nw s) (hone : s.ni.HoldsOne nw)
    (h : s.step cfg nw e = some s') : Keeps cfg nw s' := by
  refine ⟨hs.1.step hone h, ?_⟩
  obtain ⟨ni, rfl, hni, -⟩ := LinkedInterface.step_onLink hone h
  exact hs.2.log hni

theorem Keeps.receive {s s' : LinkedInterface} {full : Bool} (hs : Keeps cfg nw s) (hone : s.ni.HoldsOne nw)
    (hnil : s.ni.heldOn nw = []) (h : s.receive cfg nw env flit = some (s', full)) : Keeps cfg nw s' := by
  refine ⟨(LinkedInterface.receive_spec hone hnil h).2.2 hs.1, ?_⟩
  rw [LinkedInterface.receive, map_eq_some_iff] at h
  obtain ⟨ni, hni, h⟩ := h
  cases h
  exact hs.2.log hni

def receiver (cfg : NiConfig) (nw : Nw) : Receiver Flit where
  State := LinkedInterface
  Event := Env × NiEvent
  Env := Env
  step := LinkedInterface.step cfg nw
  receive := LinkedInterface.receive cfg nw
  Ok s := s.ni.HoldsOne nw
  load s := (s.ni.heldOn nw).length
  capacity := 1
  unstalls s := s.ni.outputs.count (.unstall nw)
  step_ok s e s' hok _ h := by
    obtain ⟨ni, rfl, -, hlink⟩ := LinkedInterface.step_onLink hok h
    obtain ⟨os, hos, hheld, hcount, -⟩ := hlink.outputs
    rw [nil_append] at hos
    have hlen := congrArg length hheld
    replace hlen : (os.filterMap (·.handedOn nw)).length + (ni.heldOn nw).length = (s.ni.heldOn nw).length := by
      rw [← length_append]
      exact hlen
    have hle := hok.le
    refine ⟨hlink.holdsOne ⟨hok.ok, hok.le⟩, ?_, ?_⟩
    · show (ni.heldOn nw).length ≤ (s.ni.heldOn nw).length
      omega
    · show ni.outputs.count (.unstall nw) = if (s.ni.heldOn nw).length = 1 ∧ (ni.heldOn nw).length < 1 then 1 else 0
      rw [hos, hcount]
      split <;> omega
  receive_ok s env flit s' full hok hlt h := by
    have hnil : s.ni.heldOn nw = [] := length_eq_zero_iff.1 (Nat.lt_one_iff.1 hlt)
    obtain ⟨hone, hfull, -⟩ := LinkedInterface.receive_spec hok hnil h
    exact ⟨hone, hone.le, hfull⟩

end NetworkInterfaceV2

end NetworkInterface

/-! ## Links -/

/-- What feeds a link: an output of a router, or a queue of an interface. -/
inductive LinkSender
  | router (cfg : RouterV2Config) (output : Nat)
  | ni (cfg : NiConfig) (nw : Nw)

/-- What a link feeds: an input of a router, or a link of an interface. -/
inductive LinkReceiver
  | router (cfg : RouterV2Config) (input : Nat)
  | ni (cfg : NiConfig) (nw : Nw)

namespace LinkSender

def sender : LinkSender → Sender Flit
  | router cfg output => RouterV2.sender cfg output
  | ni cfg nw => NetworkInterfaceV2.sender cfg nw

def init : (l : LinkSender) → l.sender.State
  | router _ _ => ({} : RouterV2)
  | ni _ _ => ({} : NetworkInterfaceV2)

/-- The output FIFOs of a router hold no more than their depth. -/
def OutputsFit : (l : LinkSender) → l.sender.State → Prop
  | router _ _, s => RouterV2.OutputsFit s
  | ni _ _, _ => True

end LinkSender

namespace LinkReceiver

def receiver : LinkReceiver → Receiver Flit
  | router cfg input => RouterV2.receiver cfg input
  | ni cfg nw => NetworkInterfaceV2.receiver cfg nw

def init : (l : LinkReceiver) → l.receiver.State
  | router _ _ => ({} : RouterV2)
  | ni _ _ => ({} : NetworkInterfaceV2.LinkedInterface)

/-- The FIFO of the input has no room, or a flit of the link is held. -/
def IsFull : (l : LinkReceiver) → l.receiver.State → Prop
  | router cfg input, s => cfg.queueCapacity input ≤ (RouterV2.inputQueues s input).length
  | ni _ nw, s => ∃ wide, ((NetworkInterfaceV2.LinkedInterface.ni s).held wide nw).isSome

/-- The FIFOs of a router hold no more than they can; an interface hands what arrives to its targets, once and in order,
and no flit that it holds is stuck. -/
def Fits : (l : LinkReceiver) → l.receiver.State → Prop
  | router cfg input, s =>
    (RouterV2.inputQueues s input).length ≤ cfg.queueCapacity input ∧ RouterV2.OutputsFit s
  | ni cfg nw, s => NetworkInterfaceV2.InOrder nw s ∧ NetworkInterfaceV2.NeverStuck cfg
    (NetworkInterfaceV2.LinkedInterface.debts s) (NetworkInterfaceV2.LinkedInterface.ni s)

end LinkReceiver

/-- A link at the start: nothing is queued, held or stalled. -/
def linkInit (snd : LinkSender) (rcv : LinkReceiver) : LinkState snd.sender rcv.receiver where
  sender := snd.init
  receiver := rcv.init

structure BackPressure (snd : LinkSender) (rcv : LinkReceiver) (s : LinkState snd.sender rcv.receiver) : Prop where
  stalled_iff : snd.sender.stalled s.sender = true ↔ rcv.IsFull s.receiver
  outputsFit : snd.OutputsFit s.sender
  fits : rcv.Fits s.receiver
  /-- The sender is only called back while it is stalled. -/
  idleUnstalls : s.idleUnstalls = 0

theorem LinkSender.outputsFit_step (snd : LinkSender) {s s' : snd.sender.State} {e : snd.sender.Event}
    (hs : snd.OutputsFit s) (h : snd.sender.step s e = some s') : snd.OutputsFit s' := by
  cases snd with
  | router cfg output =>
    replace h : (if e.2 = .linkUnstall output then none else routerStep cfg s e) = some s' := h
    split at h
    · cases h
    · exact RouterV2.routerStep_outputsFit hs h
  | ni cfg nw => exact trivial

theorem LinkSender.outputsFit_unstall (snd : LinkSender) {s : snd.sender.State} {now : Int} (hs : snd.OutputsFit s) :
    snd.OutputsFit (snd.sender.unstall s now) := by
  cases snd with
  | router cfg output => exact hs
  | ni cfg nw => exact trivial

/-- What a receiver keeps besides the flow control. -/
def LinkReceiver.Keeps : (l : LinkReceiver) → l.receiver.State → Prop
  | .router _ _, s => RouterV2.OutputsFit s
  | .ni cfg nw, s => NetworkInterfaceV2.Keeps cfg nw s

theorem LinkReceiver.keeps_step (rcv : LinkReceiver) {s s' : rcv.receiver.State} {e : rcv.receiver.Event}
    (hs : rcv.Keeps s) (hok : rcv.receiver.Ok s) (h : rcv.receiver.step s e = some s') : rcv.Keeps s' := by
  cases rcv with
  | router cfg input =>
    have hstep : routerStep cfg s e = some s' := by
      obtain ⟨env, e⟩ := e
      cases e with
      | fsm => exact h
      | linkUnstall output => exact h
      | linkReq input' flit =>
        replace h : (if input' = input then none else routerStep cfg s (env, .linkReq input' flit)) = some s' := h
        split at h
        · cases h
        · exact h
    exact RouterV2.routerStep_outputsFit hs hstep
  | ni cfg nw => exact NetworkInterfaceV2.Keeps.step hs hok h

theorem LinkReceiver.keeps_receive (rcv : LinkReceiver) {s s' : rcv.receiver.State} {env : rcv.receiver.Env}
    {full : Bool} (hs : rcv.Keeps s) (hok : rcv.receiver.Ok s) (hlt : rcv.receiver.load s < rcv.receiver.capacity)
    (h : rcv.receiver.receive s env flit = some (s', full)) : rcv.Keeps s' := by
  cases rcv with
  | router cfg input =>
    cases h
    exact hs
  | ni cfg nw =>
    have hnil : NetworkInterfaceV2.heldOn (NetworkInterfaceV2.LinkedInterface.ni s) nw = [] :=
      length_eq_zero_iff.1 (Nat.lt_one_iff.1 hlt)
    exact NetworkInterfaceV2.Keeps.receive hs hok hnil h

theorem backPressure_of_linkInv {snd : LinkSender} {rcv : LinkReceiver} {s : LinkState snd.sender rcv.receiver}
    (hi : LinkInv s) (hr : rcv.Keeps s.receiver) (hs : snd.OutputsFit s.sender) : BackPressure snd rcv s := by
  refine ⟨hi.stalled_iff.trans ?_, hs, ?_, hi.idle⟩
  · have hle := hi.load_le
    cases rcv with
    | router cfg input =>
      replace hle : (RouterV2.inputQueues s.receiver input).length ≤ cfg.queueCapacity input := hle
      show (RouterV2.inputQueues s.receiver input).length = cfg.queueCapacity input ↔
        cfg.queueCapacity input ≤ (RouterV2.inputQueues s.receiver input).length
      omega
    | ni cfg nw =>
      generalize hni : NetworkInterfaceV2.LinkedInterface.ni s.receiver = ni
      replace hle : (ni.heldOn nw).length ≤ 1 := by rw [← hni]; exact hle
      show (NetworkInterfaceV2.heldOn (NetworkInterfaceV2.LinkedInterface.ni s.receiver) nw).length = 1 ↔
        ∃ wide, ((NetworkInterfaceV2.LinkedInterface.ni s.receiver).held wide nw).isSome
      rw [hni]
      have hlen : (ni.heldOn nw).length = 1 ↔ ni.heldOn nw ≠ [] := by
        rw [← length_pos_iff]
        omega
      rw [hlen, Ne, NetworkInterfaceV2.heldOn_eq_nil, not_forall]
      exact exists_congr fun wide => isSome_iff_ne_none.symm
  · cases rcv with
    | router cfg input => exact ⟨hi.load_le, hr⟩
    | ni cfg nw => exact ⟨hr.1, hr.2.neverStuck⟩

/-- **Back-pressure is lossless.** In every run of a link whose receiver can hold a flit, the sender is stalled exactly
while the receiver is full, and neither end exceeds its bounds. -/
theorem backPressure (snd : LinkSender) (rcv : LinkReceiver) (hcap : 1 ≤ rcv.receiver.capacity)
    (es : List (LinkEvent snd.sender rcv.receiver)) :
    AllStates LinkState.step (BackPressure snd rcv) (linkInit snd rcv) es := by
  have hinit : LinkInv (linkInit snd rcv) := by
    have hst : snd.sender.stalled snd.init = false := by cases snd <;> rfl
    have hload : rcv.receiver.load rcv.init = 0 := by cases rcv <;> rfl
    have hok : rcv.receiver.Ok rcv.init := by
      cases rcv with
      | router cfg input => exact trivial
      | ni cfg nw => exact ⟨fun wide h hh => (by cases hh), Nat.zero_le 1⟩
    refine ⟨hok, ?_, ?_, rfl⟩
    · show snd.sender.stalled snd.init = true ↔ rcv.receiver.load rcv.init = rcv.receiver.capacity
      rw [hst, hload]
      exact ⟨fun h => (by cases h), fun h => absurd h (by omega)⟩
    · show rcv.receiver.load rcv.init ≤ rcv.receiver.capacity
      rw [hload]
      exact Nat.zero_le _
  have hkeeps : rcv.Keeps rcv.init := by
    cases rcv with
    | router cfg input => exact fun output => Nat.zero_le _
    | ni cfg nw => exact ⟨⟨rfl, rfl⟩, nofun, nofun, nofun, fun h => absurd rfl h, fun _ _ => rfl⟩
  have hfit : snd.OutputsFit snd.init := by
    cases snd with
    | router cfg output => exact fun output => Nat.zero_le _
    | ni cfg nw => exact trivial
  have hrun := @linkInv_run _ snd.sender rcv.receiver rcv.Keeps snd.OutputsFit
    (fun r e r' hr hok _ h => rcv.keeps_step hr hok h)
      (fun r env f r' full hr hok hlt h => rcv.keeps_receive hr hok hlt h)
    (fun s e s' hs h => snd.outputsFit_step hs h) (fun s now hs => snd.outputsFit_unstall hs) es _ hinit hkeeps hfit
  exact AllStates.mono (fun s hs => backPressure_of_linkInv hs.1 hs.2.1 hs.2.2) hrun

def twoPorts : RouterV2Config where
  nbPorts := 2
  queueCapacity _ := 1
  getOutputPort _ := some 1

/-- A read flit comes to a router, which sends it to another one; then that one moves it to its output. -/
def twoHops : List (LinkEvent (LinkSender.router twoPorts 1).sender (LinkReceiver.router twoPorts 0).receiver) :=
  let flit : Flit := { destId := 1, srcId := 0, isRsp := false, burst := 0, wide := false, isAddress := true
                       initiatorAddr := 0, opcode := .read, addr := 0, size := 4 }
  let env (now : Int) : RouterEnv := { now := now, linkFull := fun _ => true }
  [.sender (env 0, .linkReq 0 flit) (env 0), .sender (env 1, .fsm) (env 1), .sender (env 2, .fsm) (env 2),
    .receiver (env 3, .fsm) 3]

/-- The second router is full until it has moved the flit on. -/
theorem backPressure_twoHops :
    (∃ s, run LinkState.step (linkInit (.router twoPorts 1) (.router twoPorts 0)) (twoHops.take 3) = some s ∧
      (LinkSender.router twoPorts 1).sender.stalled s.sender = true ∧ BackPressure _ _ s) ∧
    ∃ s, run LinkState.step (linkInit (.router twoPorts 1) (.router twoPorts 0)) twoHops = some s ∧
      (LinkSender.router twoPorts 1).sender.stalled s.sender = false ∧ BackPressure _ _ s := by
  have hcap : 1 ≤ (LinkReceiver.router twoPorts 0).receiver.capacity := le_refl 1
  have hrun : ∀ (es : List (LinkEvent (LinkSender.router twoPorts 1).sender (LinkReceiver.router twoPorts 0).receiver))
      (b : Bool), (run LinkState.step (linkInit (.router twoPorts 1) (.router twoPorts 0)) es).map
        (fun s => (LinkSender.router twoPorts 1).sender.stalled s.sender) = some b →
      ∃ s, run LinkState.step (linkInit (.router twoPorts 1) (.router twoPorts 0)) es = some s ∧
        (LinkSender.router twoPorts 1).sender.stalled s.sender = b ∧ BackPressure _ _ s := by
    intro es b h
    obtain ⟨s, hs, hst⟩ := map_eq_some_iff.1 h
    exact ⟨s, hs, hst, (backPressure _ _ hcap es).final hs⟩
  exact ⟨hrun _ true (by decide), hrun _ false (by decide)⟩

end GvsocPulp.FloonocV2
