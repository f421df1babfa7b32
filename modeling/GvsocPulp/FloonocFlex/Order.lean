import GvsocPulp.FloonocFlex.Router

/-!
# `Router`: point-to-point order

In which order the requests of one input queue leave by one output. A forwarded request goes out at once, a forked
child waits in the pending queue of its output, which is drained after the input queues have been handled.

- `fsmQueue_moves`: what handling one input queue adds to an output;
- `fsmHandler_inOrder_iff`: a call of `fsm_handler` keeps the order exactly if no request is forwarded past a forked
  child of its own input queue;
- `order_iff`: the same over whole runs; `order_lost`: a unicast write that overtakes a multicast;
- `order_path`: along a path of routers that keep the order, two requests arrive in order.
-/

namespace GvsocPulp.FloonocFlex

open Lib Function List Option Router RouterConfig

variable {req : Req} {full full' : Nat → Bool} {hops : List Hop} {m n : Nat}

section Order

variable (cfg : RouterConfig)

/-- What has left by an output, then what waits to leave by it. -/
def Router.leaving (s : Router) (out : Nat) : List Req := s.sent out ++ s.collectivePendingQueues out

/-- One of two requests does not leave before the other if it came later by the same input queue. -/
def NotLater (x y : Req) : Prop := x.origin.1 = y.origin.1 → x.origin.2 ≤ y.origin.2

/-- At each output, the requests of one input queue leave in the order they came. -/
def InOrder (s : Router) : Prop := ∀ out, (s.leaving out).Pairwise NotLater

/-- The output the head of an input queue is forwarded to, if it is not forked or completed. -/
def RouterConfig.headOutput (req : Req) : Option Nat :=
  match cfg.fanout req with
  | none => cfg.outQueue req.destId
  | some [(dest, _)] => cfg.outQueue dest
  | some _ => none

/-- No request is forwarded to an output where a forked child of its own input queue waits. -/
def NoBypass (s : Router) (e : Event) : Prop :=
  ∀ visible refuses, e = .fsm visible refuses → ∀ s', fsmHandler cfg visible refuses s = some s' →
    ∀ q < cfg.numQueues, ∀ req rest out, s.inputQueues q = req :: rest → s'.inputQueues q = rest →
      cfg.headOutput req = some out → ∀ child ∈ s.collectivePendingQueues out, child.origin.1 ≠ q

/-- Where the requests of an input queue came in. -/
def Router.origins (s : Router) (q : Nat) : List (Nat × Nat) := (s.inputQueues q).map (·.origin)

/-- What orders the requests of a router: those of an input queue came in the order they stand, after all of that
queue that are leaving. -/
structure OrderInv (s : Router) : Prop where
  origin : ∀ q, ∀ y ∈ s.origins q, y.1 = q
  queue : ∀ q, (s.origins q).Pairwise fun x y => x.2 < y.2
  before : ∀ q out, ∀ x ∈ s.leaving out, x.origin.1 = q → ∀ y ∈ s.origins q, x.origin.2 < y.2
  queued : ∀ q, ∀ y ∈ s.origins q, y.2 < (s.arrived q).length
  left : ∀ out, ∀ x ∈ s.leaving out, x.origin.2 < (s.arrived x.origin.1).length

variable {cfg}

/-! ### One input queue -/

/-- The ways handling input queue `q` changes what the order depends on. -/
inductive Moves (cfg : RouterConfig) (q : Nat) (s s' : Router) : Prop
  | keep (hq : s'.inputQueues = s.inputQueues) (hs : s'.sent = s.sent)
      (hp : s'.collectivePendingQueues = s.collectivePendingQueues)
  | redirect {req req' : Req} {rest : List Req} (h : s.inputQueues q = req :: rest) (ho : req'.origin = req.origin)
      (hq : s'.inputQueues = update s.inputQueues q (req' :: rest)) (hs : s'.sent = s.sent)
      (hp : s'.collectivePendingQueues = s.collectivePendingQueues)
  | forward {req req' : Req} {rest : List Req} {out : Nat} (h : s.inputQueues q = req :: rest)
      (ho : req'.origin = req.origin) (hout : cfg.headOutput req = some out)
      (hq : s'.inputQueues = update s.inputQueues q rest)
      (hs : s'.sent = update s.sent out (s.sent out ++ [req']))
      (hp : s'.collectivePendingQueues = s.collectivePendingQueues)
  | fork {req : Req} {rest : List Req} {children : Nat → List Req} (h : s.inputQueues q = req :: rest)
      (hnone : cfg.headOutput req = none) (ho : ∀ out, ∀ x ∈ children out, x.origin = req.origin)
      (hq : s'.inputQueues = update s.inputQueues q rest) (hs : s'.sent = s.sent)
      (hp : ∀ out, s'.collectivePendingQueues out = s.collectivePendingQueues out ++ children out)

variable {refuses : Nat → Bool} {q : Nat} {s s' : Router} {visible : Nat → Bool} {x : Req}

/-- Forwarding leaves everything as it is, or sends the head of the queue to its output. -/
theorem forward_moves {rest : List Req}
    (h : forward cfg refuses q req rest s full = some (s', full')) :
    s'.arrived = s.arrived ∧ s'.collectivePendingQueues = s.collectivePendingQueues ∧
      ((s'.inputQueues = s.inputQueues ∧ s'.sent = s.sent) ∨
        ∃ out, cfg.outQueue req.destId = some out ∧ s'.inputQueues = update s.inputQueues q rest ∧
          s'.sent = update s.sent out (s.sent out ++ [req])) := by
  unfold forward at h
  split at h
  case h_1 => cases h
  case h_2 out hout =>
    split at h
    case isTrue => cases h; exact ⟨rfl, rfl, Or.inl ⟨rfl, rfl⟩⟩
    case isFalse =>
      split at h
      case isTrue => cases h; exact ⟨rfl, rfl, Or.inl ⟨rfl, rfl⟩⟩
      case isFalse =>
        simp only at h
        split at h
        case h_1 => cases h
        case h_2 s₁ hs₁ =>
          cases h
          -- unstalling the sender does not touch the queues
          have hs₁ : s₁.arrived = s.arrived ∧ s₁.collectivePendingQueues = s.collectivePendingQueues ∧
              s₁.inputQueues = update s.inputQueues q rest ∧ s₁.sent = s.sent := by
            split at hs₁
            case isTrue => obtain ⟨_, rfl⟩ := unstallSender_eq hs₁; exact ⟨rfl, rfl, rfl, rfl⟩
            case isFalse => cases hs₁; exact ⟨rfl, rfl, rfl, rfl⟩
          obtain ⟨ha, hp, hq, hs⟩ := hs₁
          exact ⟨ha, hp, Or.inr ⟨out, hout, hq, by simp only [hs]⟩⟩

theorem forkChildren_moves : ∀ {dests : List (Int × Int)} {s s' : Router},
    forkChildren cfg req dests s = some s' →
    s'.arrived = s.arrived ∧ s'.inputQueues = s.inputQueues ∧ s'.sent = s.sent ∧
      ∃ children : Nat → List Req, (∀ out, ∀ x ∈ children out, x.origin = req.origin) ∧
        ∀ out, s'.collectivePendingQueues out = s.collectivePendingQueues out ++ children out
  | [], s, s', h => by
    cases h
    exact ⟨rfl, rfl, rfl, fun _ => [], by simp, by simp⟩
  | (dest, next) :: rest, s, s', h => by
    rw [forkChildren] at h
    split at h
    case h_1 => cases h
    case h_2 q _ =>
      obtain ⟨ha, hq, hs, children, ho, hp⟩ := forkChildren_moves h
      refine ⟨ha, hq, hs, fun out => (if out = q then [{ req with destId := dest, collState := next }] else []) ++
        children out, fun out x hx => ?_, fun out => ?_⟩
      · rcases mem_append.1 hx with hx | hx
        · split at hx
          · cases mem_singleton.1 hx; rfl
          · cases hx
        · exact ho out x hx
      · rw [hp]
        by_cases hout : out = q
        · subst hout; simp
        · simp [hout]

theorem fsmQueue_moves
    (h : fsmQueue cfg visible refuses q s full = some (s', full')) : s'.arrived = s.arrived ∧ Moves cfg q s s' := by
  unfold fsmQueue at h
  split at h
  case h_1 => cases h; exact ⟨rfl, .keep rfl rfl rfl⟩
  case h_2 req rest hq =>
    split at h
    case isFalse => cases h; exact ⟨rfl, .keep rfl rfl rfl⟩
    case isTrue =>
      split at h
      case h_1 hf =>
        -- one destination
        obtain ⟨ha, hp, ⟨hq', hs⟩ | ⟨out, hout, hq', hs⟩⟩ := forward_moves h
        · exact ⟨ha, .keep hq' hs hp⟩
        · exact ⟨ha, .forward hq rfl (by rw [headOutput, hf]; exact hout) hq' hs hp⟩
      case h_2 hf =>
        -- no member
        cases h
        exact ⟨rfl, @Moves.fork _ _ _ _ _ _ (fun _ => []) hq (by rw [headOutput, hf])
          (fun _ _ hx => by cases hx) rfl rfl fun _ => by simp⟩
      case h_3 dest next hf =>
        -- redirected to one destination
        let redirected := { req with destId := dest, collState := next }
        have ho : redirected.origin = req.origin := rfl
        obtain ⟨ha, hp, ⟨hq', hs⟩ | ⟨out, hout, hq', hs⟩⟩ := forward_moves h
        · exact ⟨ha, .redirect hq ho hq' hs hp⟩
        · rw [update_idem] at hq'
          exact ⟨ha, .forward hq ho (by rw [headOutput, hf]; exact hout) hq' hs hp⟩
      case h_4 dests hne₀ hne₁ hf =>
        -- several destinations
        rw [map_eq_some_iff] at h
        obtain ⟨s₁, hs₁, h⟩ := h
        cases h
        obtain ⟨ha, hq', hs, children, ho, hp⟩ := forkChildren_moves hs₁
        refine ⟨ha, .fork hq ?_ ho hq' hs hp⟩
        unfold headOutput
        split
        case h_1 hf' => rw [hf] at hf'; cases hf'
        case h_2 d n hf' => rw [hf] at hf'; cases hf'; exact absurd rfl (hne₁ d n)
        case h_3 => rfl

/-! ### The order of one move -/

/-- Queue `q` sends its head past a forked child of its own. -/
def Bypass (cfg : RouterConfig) (q : Nat) (s s' : Router) : Prop :=
  ∃ req rest out, s.inputQueues q = req :: rest ∧ s'.inputQueues q = rest ∧ cfg.headOutput req = some out ∧
    ∃ child ∈ s.collectivePendingQueues out, child.origin.1 = q

/-- Taking the head off a queue, with what is leaving after it made of the same requests and of that head. -/
theorem OrderInv.pop {o : Nat × Nat} {rest : List (Nat × Nat)} (hs : OrderInv s)
    (hq : s.origins q = o :: rest) (ha : s'.arrived = s.arrived)
    (hq' : ∀ q', s'.origins q' = if q' = q then rest else s.origins q')
    (hl : ∀ out, ∀ x ∈ s'.leaving out, x ∈ s.leaving out ∨ x.origin = o) : OrderInv s' := by
  have hsub : ∀ q', ∀ y ∈ s'.origins q', y ∈ s.origins q' := by
    intro q' y hy
    rw [hq'] at hy
    split at hy
    case isTrue h => subst h; rw [hq]; exact mem_cons_of_mem _ hy
    case isFalse => exact hy
  have ho : o ∈ s.origins q := by rw [hq]; exact mem_cons_self
  have hpw := hs.queue q
  rw [hq, pairwise_cons] at hpw
  refine ⟨fun q' y hy => hs.origin q' y (hsub q' y hy), fun q' => ?_, fun q' out x hx hxq y hy => ?_,
    fun q' y hy => by rw [ha]; exact hs.queued q' y (hsub q' y hy), fun out x hx => ?_⟩
  · rw [hq']
    split
    · exact hpw.2
    · exact hs.queue q'
  · rcases hl out x hx with hx | hx
    · exact hs.before q' out x hx hxq y (hsub q' y hy)
    · have hqq : q' = q := by rw [← hxq, hx, hs.origin q o ho]
      rw [hq', if_pos hqq] at hy
      rw [hx]
      exact hpw.1 y hy
  · rw [ha]
    rcases hl out x hx with hx | hx
    · exact hs.left out x hx
    · rw [hx, hs.origin q o ho]
      exact hs.queued q o ho

theorem OrderInv.congr (hs : OrderInv s) (ha : s'.arrived = s.arrived)
    (hq : s'.origins = s.origins) (hl : s'.leaving = s.leaving) : OrderInv s' := by
  obtain ⟨h₁, h₂, h₃, h₄, h₅⟩ := hs
  exact ⟨by rwa [hq], by rwa [hq], by rwa [hq, hl], by rwa [hq, ha], by rwa [hl, ha]⟩

theorem pairwise_insert {xs ys : List Req} : (xs ++ [x] ++ ys).Pairwise NotLater ↔
    (xs ++ ys).Pairwise NotLater ∧ (∀ y ∈ xs, NotLater y x) ∧ ∀ y ∈ ys, NotLater x y := by
  simp only [append_assoc, pairwise_append, pairwise_cons, mem_cons, singleton_append]
  constructor
  · rintro ⟨hxs, ⟨hx, hys⟩, h⟩
    exact ⟨⟨hxs, hys, fun a ha b hb => h a ha b (Or.inr hb)⟩, fun a ha => h a ha x (Or.inl rfl), hx⟩
  · rintro ⟨⟨hxs, hys, h⟩, hx, hx'⟩
    refine ⟨hxs, ⟨hx', hys⟩, fun a ha b hb => ?_⟩
    rcases hb with rfl | hb
    · exact hx a ha
    · exact h a ha b hb

/-- One output: the order stands after a move iff it stood before and the move bypasses no child. -/
theorem Moves.inOrder_iff (hs : OrderInv s) (ha : s'.arrived = s.arrived)
    (h : Moves cfg q s s') : OrderInv s' ∧ (InOrder s' ↔ InOrder s ∧ ¬Bypass cfg q s s') := by
  cases h with
  | keep hq hsent hp =>
    have hl : s'.leaving = s.leaving := by unfold leaving; rw [hsent, hp]
    refine ⟨hs.congr ha (by unfold origins; rw [hq]) hl, ?_⟩
    have hno : ¬Bypass cfg q s s' := by
      rintro ⟨req, rest, out, h, h', -⟩
      rw [hq, h] at h'
      exact absurd h' (cons_ne_self _ _)
    simp [InOrder, hl, hno]
  | @redirect req req' rest h ho hq hsent hp =>
    have hl : s'.leaving = s.leaving := by unfold leaving; rw [hsent, hp]
    have horig : s'.origins = s.origins := by
      funext q'
      unfold origins
      rw [hq]
      by_cases hqq : q' = q
      · subst hqq; rw [update_self, h, map_cons, map_cons, ho]
      · rw [update_of_ne hqq]
    refine ⟨hs.congr ha horig hl, ?_⟩
    have hno : ¬Bypass cfg q s s' := by
      rintro ⟨req₁, rest₁, out, h₁, h', -⟩
      rw [h] at h₁
      cases h₁
      rw [hq, update_self] at h'
      exact absurd h' (cons_ne_self _ _)
    simp [InOrder, hl, hno]
  | @forward req req' rest out h ho hout hq hsent hp =>
    have horig : s.origins q = req.origin :: rest.map (·.origin) := by unfold origins; rw [h, map_cons]
    have hmem : req.origin ∈ s.origins q := by rw [horig]; exact mem_cons_self
    have hreq : req.origin.1 = q := hs.origin q _ hmem
    have hl : ∀ out', s'.leaving out' =
        if out' = out then s.sent out ++ [req'] ++ s.collectivePendingQueues out else s.leaving out' := by
      intro out'
      unfold leaving
      rw [hsent, hp]
      by_cases hoo : out' = out
      · subst hoo; rw [update_self, if_pos rfl]
      · rw [update_of_ne hoo, if_neg hoo]
    refine ⟨hs.pop horig ha (fun q' => ?_) (fun out' x hx => ?_), ?_⟩
    · unfold origins
      rw [hq]
      by_cases hqq : q' = q
      · subst hqq; rw [update_self, if_pos rfl]
      · rw [update_of_ne hqq, if_neg hqq]
    · rw [hl] at hx
      split at hx
      case isTrue hoo =>
        subst hoo
        unfold leaving
        simp only [mem_append, mem_cons, not_mem_nil, or_false] at hx ⊢
        rcases hx with (hx | rfl) | hx
        · exact Or.inl (Or.inl hx)
        · exact Or.inr ho
        · exact Or.inl (Or.inr hx)
      case isFalse => exact Or.inl hx
    · -- what has left of the queue came before its head; a child that waits came before it too, and is overtaken
      have hsentOk : ∀ y ∈ s.sent out, NotLater y req' := by
        intro y hy hyq
        rw [ho] at hyq ⊢
        exact (hs.before q out y (mem_append_left _ hy) (hyq.trans hreq) _ hmem).le
      have hpend : (∀ y ∈ s.collectivePendingQueues out, NotLater req' y) ↔ ¬Bypass cfg q s s' := by
        constructor
        · rintro hy ⟨req₁, rest₁, out₁, h₁, -, hout₁, child, hc, hcq⟩
          rw [h] at h₁
          cases h₁
          rw [hout] at hout₁
          cases hout₁
          have hlt := hs.before q out child (mem_append_right _ hc) hcq _ hmem
          have hle := hy child hc (by rw [ho, hreq, hcq])
          rw [ho] at hle
          omega
        · intro hno y hy hyq
          rw [ho, hreq] at hyq
          exact absurd ⟨req, rest, out, h, by rw [hq, update_self], hout, y, hy, hyq.symm⟩ hno
      have hout' : (s'.leaving out).Pairwise NotLater ↔ (s.leaving out).Pairwise NotLater ∧ ¬Bypass cfg q s s' := by
        rw [hl, if_pos rfl, pairwise_insert, hpend]
        exact ⟨fun h => ⟨h.1, h.2.2⟩, fun h => ⟨h.1, hsentOk, h.2⟩⟩
      constructor
      · intro hin
        refine ⟨fun out' => ?_, (hout'.1 (hin out)).2⟩
        by_cases hoo : out' = out
        · subst hoo; exact (hout'.1 (hin _)).1
        · have := hin out'
          rwa [hl, if_neg hoo] at this
      · rintro ⟨hin, hno⟩ out'
        by_cases hoo : out' = out
        · subst hoo; exact hout'.2 ⟨hin _, hno⟩
        · rw [hl, if_neg hoo]
          exact hin out'
  | @fork req rest children h hnone ho hq hsent hp =>
    have horig : s.origins q = req.origin :: rest.map (·.origin) := by unfold origins; rw [h, map_cons]
    have hmem : req.origin ∈ s.origins q := by rw [horig]; exact mem_cons_self
    have hreq : req.origin.1 = q := hs.origin q _ hmem
    have hl : ∀ out, s'.leaving out = s.leaving out ++ children out := by
      intro out
      unfold leaving
      rw [hsent, hp, append_assoc]
    refine ⟨hs.pop horig ha (fun q' => ?_) (fun out x hx => ?_), ?_⟩
    · unfold origins
      rw [hq]
      by_cases hqq : q' = q
      · subst hqq; rw [update_self, if_pos rfl]
      · rw [update_of_ne hqq, if_neg hqq]
    · rw [hl] at hx
      rcases mem_append.1 hx with hx | hx
      · exact Or.inl hx
      · exact Or.inr (ho out x hx)
    · have hno : ¬Bypass cfg q s s' := by
        rintro ⟨req₁, rest₁, out, h₁, -, hout, -⟩
        rw [h] at h₁
        cases h₁
        rw [hnone] at hout
        cases hout
      have hchildren : ∀ out, (children out).Pairwise NotLater := by
        intro out
        refine Pairwise.imp_of_mem ?_ (pairwise_of_forall (R := fun _ _ => True) fun _ _ => trivial)
        intro x y hx hy _ _
        rw [ho out x hx, ho out y hy]
      have hlast : ∀ out, ∀ x ∈ s.leaving out, ∀ y ∈ children out, NotLater x y := by
        intro out x hx y hy hxy
        rw [ho out y hy] at hxy ⊢
        exact (hs.before q out x hx (hxy.trans hreq) _ hmem).le
      constructor
      · intro hin
        refine ⟨fun out => ?_, hno⟩
        have := hin out
        rw [hl, pairwise_append] at this
        exact this.1
      · rintro ⟨hin, -⟩ out
        rw [hl, pairwise_append]
        exact ⟨hin out, hchildren out, hlast out⟩

theorem Moves.other (hs : OrderInv s) (h : Moves cfg q s s') {q' : Nat} (hq' : q' ≠ q) :
    s'.inputQueues q' = s.inputQueues q' ∧ ∀ out x, x.origin.1 = q' →
      (x ∈ s'.collectivePendingQueues out ↔ x ∈ s.collectivePendingQueues out) := by
  cases h with
  | keep hq _ hp => exact ⟨by rw [hq], fun _ _ _ => by rw [hp]⟩
  | redirect _ _ hq _ hp => exact ⟨by rw [hq, update_of_ne hq'], fun _ _ _ => by rw [hp]⟩
  | forward _ _ _ hq _ hp => exact ⟨by rw [hq, update_of_ne hq'], fun _ _ _ => by rw [hp]⟩
  | @fork req rest children h _ ho hq _ hp =>
    have hreq : req.origin.1 = q := hs.origin q _ (by unfold origins; rw [h]; exact mem_cons_self)
    refine ⟨by rw [hq, update_of_ne hq'], fun out x hx => ?_⟩
    rw [hp, mem_append]
    constructor
    · rintro (h | h)
      · exact h
      · rw [ho out x h, hreq] at hx
        exact absurd hx.symm hq'
    · exact Or.inl

theorem bypass_congr {t t' : Router} (hq : t.inputQueues q = s.inputQueues q)
    (hq' : t'.inputQueues q = s'.inputQueues q)
    (hp : ∀ out x, x.origin.1 = q → (x ∈ t.collectivePendingQueues out ↔ x ∈ s.collectivePendingQueues out)) :
    Bypass cfg q t t' ↔ Bypass cfg q s s' := by
  unfold Bypass
  rw [hq, hq']
  constructor
  · rintro ⟨req, rest, out, h, h', hout, child, hc, hcq⟩
    exact ⟨req, rest, out, h, h', hout, child, (hp out child hcq).1 hc, hcq⟩
  · rintro ⟨req, rest, out, h, h', hout, child, hc, hcq⟩
    exact ⟨req, rest, out, h, h', hout, child, (hp out child hcq).2 hc, hcq⟩

/-! ### Whole runs -/

/-- The loop over the input queues keeps the order exactly if no queue bypasses a child of its own. -/
theorem fsmQueues_inOrder : ∀ {qs : List Nat} {s s' : Router} {full full' : Nat → Bool},
    qs.Nodup → OrderInv s → fsmQueues cfg visible refuses qs s full = some (s', full') →
    s'.arrived = s.arrived ∧ OrderInv s' ∧
      (∀ q ∉ qs, s'.inputQueues q = s.inputQueues q ∧ ∀ out x, x.origin.1 = q →
        (x ∈ s'.collectivePendingQueues out ↔ x ∈ s.collectivePendingQueues out)) ∧
      (InOrder s' ↔ InOrder s ∧ ∀ q ∈ qs, ¬Bypass cfg q s s')
  | [], s, s', _, _, _, hs, h => by
    cases h
    exact ⟨rfl, hs, fun _ _ => ⟨rfl, fun _ _ _ => Iff.rfl⟩, by simp⟩
  | q :: qs, s, s', full, full', hnd, hs, h => by
    obtain ⟨hq, hnd⟩ := nodup_cons.1 hnd
    rw [fsmQueues, bind_eq_some_iff] at h
    obtain ⟨⟨s₁, full₁⟩, h₁, h⟩ := h
    obtain ⟨ha₁, hmove⟩ := fsmQueue_moves h₁
    obtain ⟨hs₁, hin₁⟩ := hmove.inOrder_iff hs ha₁
    obtain ⟨ha, hs', hother, hin⟩ := fsmQueues_inOrder hnd hs₁ h
    have hself : Bypass cfg q s s₁ ↔ Bypass cfg q s s' :=
      bypass_congr rfl (hother q hq).1.symm fun _ _ _ => Iff.rfl
    have hrest : ∀ q' ∈ qs, (Bypass cfg q' s₁ s' ↔ Bypass cfg q' s s') := by
      intro q' hq'
      have hne : q' ≠ q := fun h => hq (h ▸ hq')
      obtain ⟨hin', hp'⟩ := hmove.other hs hne
      exact bypass_congr hin' rfl hp'
    refine ⟨ha.trans ha₁, hs', fun q' hq' => ?_, ?_⟩
    · rw [mem_cons, not_or] at hq'
      obtain ⟨hin', hp'⟩ := hmove.other hs hq'.1
      obtain ⟨hin'', hp''⟩ := hother q' hq'.2
      exact ⟨hin''.trans hin', fun out x hx => (hp'' out x hx).trans (hp' out x hx)⟩
    · rw [hin, hin₁, hself, and_assoc, forall_mem_cons]
      have hall : (∀ q' ∈ qs, ¬Bypass cfg q' s₁ s') ↔ ∀ q' ∈ qs, ¬Bypass cfg q' s s' :=
        forall₂_congr fun q' hq' => by rw [hrest q' hq']
      rw [hall]

/-- Draining a pending queue changes neither what is leaving nor the input queues. -/
theorem drainQueue_leaving (refuses full : Nat → Bool) (s : Router) (q : Nat) :
    (drainQueue refuses full s q).leaving = s.leaving ∧ (drainQueue refuses full s q).inputQueues = s.inputQueues ∧
      (drainQueue refuses full s q).arrived = s.arrived := by
  unfold drainQueue
  split
  case h_1 => exact ⟨rfl, rfl, rfl⟩
  case h_2 child pending hp =>
    split
    case isTrue => exact ⟨rfl, rfl, rfl⟩
    case isFalse =>
      refine ⟨?_, rfl, rfl⟩
      funext out
      unfold leaving
      by_cases hout : out = q
      · subst hout; simp [hp]
      · simp [hout]

theorem foldl_drain_leaving (refuses full : Nat → Bool) : ∀ (qs : List Nat) (s : Router),
    (qs.foldl (drainQueue refuses full) s).leaving = s.leaving ∧
      (qs.foldl (drainQueue refuses full) s).inputQueues = s.inputQueues ∧
      (qs.foldl (drainQueue refuses full) s).arrived = s.arrived
  | [], _ => ⟨rfl, rfl, rfl⟩
  | q :: qs, s => by
    obtain ⟨hl, hq, ha⟩ := foldl_drain_leaving refuses full qs (drainQueue refuses full s q)
    obtain ⟨hl', hq', ha'⟩ := drainQueue_leaving refuses full s q
    rw [foldl_cons]
    exact ⟨hl.trans hl', hq.trans hq', ha.trans ha'⟩

/-- The whole handler: all its outputs, one move each. -/
theorem fsmHandler_inOrder_iff (hs : OrderInv s)
    (h : fsmHandler cfg visible refuses s = some s') :
    OrderInv s' ∧ (InOrder s' ↔ InOrder s ∧ NoBypass cfg s (.fsm visible refuses)) := by
  have h₀ := h
  rw [fsmHandler, map_eq_some_iff] at h
  obtain ⟨⟨s₁, full₁⟩, h₁, hdrain⟩ := h
  have hperm := @roundRobin_perm cfg s
  obtain ⟨ha₁, hs₁, -, hin₁⟩ := fsmQueues_inOrder (hperm.nodup_iff.2 nodup_range) hs h₁
  obtain ⟨hl, hq, ha⟩ := foldl_drain_leaving refuses full₁ (List.range cfg.numQueues) s₁
  rw [hdrain] at hl hq ha
  refine ⟨hs₁.congr ha (by unfold origins; rw [hq]) hl, ?_⟩
  have hin : InOrder s' ↔ InOrder s₁ := by unfold InOrder; rw [hl]
  rw [hin, hin₁]
  refine and_congr_right fun _ => ⟨fun hno => ?_, fun hno q hq' => ?_⟩
  · rintro _ _ ⟨⟩ s₂ hs₂ q hlt req rest out hreq hrest hout child hc hcq
    rw [h₀] at hs₂
    cases hs₂
    apply hno q (hperm.mem_iff.2 (mem_range.2 hlt))
    exact ⟨req, rest, out, hreq, by rw [← hq, hrest], hout, child, hc, hcq⟩
  · rintro ⟨req, rest, out, hreq, hrest, hout, child, hc, hcq⟩
    have hlt := mem_range.1 (hperm.mem_iff.1 hq')
    exact hno visible refuses rfl s' h₀ q hlt req rest out hreq (by rw [hq, hrest]) hout child hc hcq

theorem handleRequest_orderInv (hs : OrderInv s) (q : Nat) (req : Req) :
    OrderInv (handleRequest cfg q req s) ∧ (handleRequest cfg q req s).leaving = s.leaving := by
  have hl : (handleRequest cfg q req s).leaving = s.leaving := rfl
  have horig : ∀ q', (handleRequest cfg q req s).origins q' =
      s.origins q' ++ if q' = q then [(q, (s.arrived q).length)] else [] := by
    intro q'
    by_cases hqq : q' = q
    · subst hqq; simp [origins, handleRequest]
    · simp [origins, handleRequest, hqq]
  have hlen : ∀ q', (s.arrived q').length ≤ ((handleRequest cfg q req s).arrived q').length := by
    intro q'
    by_cases hqq : q' = q
    · subst hqq; simp [handleRequest]
    · simp [handleRequest, hqq]
  have hmem : ∀ q', ∀ y ∈ (handleRequest cfg q req s).origins q',
      y ∈ s.origins q' ∨ q' = q ∧ y = (q, (s.arrived q).length) := by
    intro q' y hy
    rw [horig] at hy
    rcases mem_append.1 hy with hy | hy
    · exact Or.inl hy
    · split at hy
      case isTrue hqq => exact Or.inr ⟨hqq, mem_singleton.1 hy⟩
      case isFalse => cases hy
  refine ⟨⟨fun q' y hy => ?_, fun q' => ?_, fun q' out x hx hxq y hy => ?_, fun q' y hy => ?_, fun out x hx => ?_⟩, hl⟩
  · rcases hmem q' y hy with hy | ⟨rfl, rfl⟩
    · exact hs.origin q' y hy
    · rfl
  · rw [horig, pairwise_append]
    refine ⟨hs.queue q', by split <;> simp, fun x hx y hy => ?_⟩
    split at hy
    case isTrue hqq =>
      cases mem_singleton.1 hy
      subst hqq
      exact hs.queued q' x hx
    case isFalse => cases hy
  · rcases hmem q' y hy with hy | ⟨rfl, rfl⟩
    · exact hs.before q' out x hx hxq y hy
    · have := hs.left out x hx
      rwa [hxq] at this
  · rcases hmem q' y hy with hy | ⟨rfl, rfl⟩
    · exact (hs.queued q' y hy).trans_le (hlen q')
    · simp [handleRequest]
  · exact (hs.left out x hx).trans_le (hlen _)

/-- One event of the router keeps the order iff it bypasses no child. -/
theorem step_inOrder_iff {e : Event} (hs : OrderInv s) (h : step cfg s e = some s') :
    OrderInv s' ∧ (InOrder s' ↔ InOrder s ∧ NoBypass cfg s e) := by
  cases e with
  | request q req =>
    simp only [step] at h
    split at h
    case isFalse => cases h
    case isTrue =>
      cases h
      obtain ⟨hinv, hl⟩ := @handleRequest_orderInv cfg _ hs q req
      refine ⟨hinv, ?_⟩
      have hno : NoBypass cfg s (.request q req) := fun _ _ he => by cases he
      simp [InOrder, hl, hno]
  | unstall q =>
    cases h
    have hno : NoBypass cfg s (.unstall q) := fun _ _ he => by cases he
    exact ⟨hs.congr rfl rfl rfl, by simp only [hno, and_true]; exact Iff.rfl⟩
  | fsm visible refuses => exact fsmHandler_inOrder_iff hs h

theorem orderInv_init : OrderInv init := by
  constructor <;> simp [init, origins, leaving]

/-- Over every run, each output keeps the order of each input queue in all states iff no call of `fsm_handler` forwards
a request to an output where a forked child of the same input queue waits. -/
theorem order_iff (cfg : RouterConfig) (events : List Event) :
    AllStates (step cfg) InOrder init events ↔ AllSteps (step cfg) (NoBypass cfg) init events := by
  have h := @allStates_iff _ _ (step cfg) (fun s => OrderInv s ∧ InOrder s) InOrder (NoBypass cfg)
    (fun _ hs => hs.2) (fun s e s' hs h => by rw [(step_inOrder_iff hs.1 h).2]; simp [hs.2])
    (fun s e s' hs h hin => ⟨(step_inOrder_iff hs.1 h).1, hin⟩) events init
  exact h ⟨orderInv_init, fun out => by simp [leaving, init]⟩

end Order

/-! ## Paths -/

/-- A router on a path after a run, with the queue by which the path enters it and the output by which it leaves. -/
structure Hop where
  cfg : RouterConfig
  events : List Event
  state : Router
  input : Nat
  output : Nat
  run_eq : run (step cfg) init events = some state

def Hop.sent (h : Hop) : List Req := h.state.sent h.output

/-- A request sent by the last hop of a path (the hops are listed from the last one) came by the path, and entered its
first hop as number `n`. -/
inductive CameFrom : List Hop → Req → Nat → Prop
  | first {h : Hop} {x : Req} (hx : x.origin.1 = h.input) : CameFrom [h] x x.origin.2
  | next {h h' : Hop} {hops : List Hop} {x y : Req} {n : Nat} (hx : x.origin.1 = h.input)
      (hy : h'.sent[x.origin.2]? = some y) (hn : CameFrom (h' :: hops) y n) : CameFrom (h :: h' :: hops) x n

theorem CameFrom.unique (hn : CameFrom hops x n) (hm : CameFrom hops x m) :
    n = m := by
  induction hn with
  | first => cases hm; rfl
  | next _ hy _ ih =>
    cases hm with
    | next _ hy' hm =>
      rw [hy] at hy'
      cases hy'
      exact ih hm

theorem order_path (horder : ∀ h ∈ hops, InOrder h.state) {last : Hop} {rest : List Hop}
    (hhops : hops = last :: rest) {i j : Nat} (hij : i < j) {y : Req} (hx : last.sent[i]? = some x)
    (hy : last.sent[j]? = some y) (hn : CameFrom hops x n) (hm : CameFrom hops y m) : n ≤ m := by
  have hnotLater : ∀ {h : Hop}, InOrder h.state → ∀ {i j : Nat} {x y : Req}, i < j → h.sent[i]? = some x →
      h.sent[j]? = some y → NotLater x y := by
    intro h hin i j x y hij hx hy
    obtain ⟨hi, rfl⟩ := List.getElem?_eq_some_iff.1 hx
    obtain ⟨hj, rfl⟩ := List.getElem?_eq_some_iff.1 hy
    exact pairwise_iff_getElem.1 (pairwise_append.1 (hin h.output)).1 i j hi hj hij
  induction hn generalizing last rest i j y m with
  | @first h x hxq =>
    cases hhops
    cases hm with
    | first hyq => exact hnotLater (horder h (by simp)) hij hx hy (hxq.trans hyq.symm)
  | @next h h' hops x x' n hxq hx' hn ih =>
    cases hhops
    cases hm with
    | @next _ _ _ _ y' _ hyq hy' hm =>
      have hle := hnotLater (horder h (by simp)) hij hx hy (hxq.trans hyq.symm)
      rcases hle.lt_or_eq with hlt | heq
      · exact ih (fun k hk => horder k (mem_cons_of_mem _ hk)) rfl hlt hx' hy' hm
      · -- copies of one request
        rw [heq, hy'] at hx'
        cases hx'
        exact (hn.unique hm).le

/-- Over every run, each output keeps the order of each input queue in all states iff no request is forwarded past a
forked child of its own input queue; and along a path whose hops meet this, requests arrive in the order they came. -/
theorem pointToPoint_order :
    (∀ (cfg : RouterConfig) (events : List Event),
      AllStates (step cfg) InOrder init events ↔ AllSteps (step cfg) (NoBypass cfg) init events) ∧
    ∀ (last : Hop) (rest : List Hop),
      (∀ h ∈ last :: rest, AllSteps (step h.cfg) (NoBypass h.cfg) init h.events) →
      ∀ (i j : Nat) (x y : Req) (n m : Nat), last.sent[i]? = some x → last.sent[j]? = some y →
        CameFrom (last :: rest) x n → CameFrom (last :: rest) y m → i < j → n ≤ m := by
  refine ⟨order_iff, fun last rest hno i j x y n m hx hy hn hm hij => ?_⟩
  have horder : ∀ h ∈ last :: rest, InOrder h.state := fun h hh =>
    ((order_iff h.cfg h.events).2 (hno h hh)).final h.run_eq
  exact order_path horder rfl hij hx hy hn hm

/-- A unicast write that the NI of router 13 injects, to the right neighbour. -/
def unicast : Req where
  destId := 14
  isWrite := true
  collOp := collOpUnicast
  srcId := 13
  collMask := 0
  collState := 0

/-- The right neighbour is full and stalls its output, where a child of the NI's multicast waits; once it has room
again, the unicast write that the NI has sent next takes the output before this child. -/
theorem order_lost :
    let events := [.request 0 unicast, .fsm (fun _ => true) (· == 1), .request 0 multicast,
      .fsm (fun _ => true) (fun _ => false), .request 0 unicast, .unstall 1, .fsm (fun _ => true) (fun _ => false),
      .fsm (fun _ => true) (fun _ => false)]
    ∃ s, run (step cornerRouter) init events = some s ∧
      (s.sent 1).map (fun x => (x.origin, x.collOp)) = [((0, 0), 0), ((0, 2), 0), ((0, 1), 1)] ∧
      ¬(s.sent 1).Pairwise NotLater := by
  intro events
  have hrun : ((run (step cornerRouter) init events).map fun s => (s.sent 1).map fun x => (x.origin, x.collOp)) =
      some [((0, 0), 0), ((0, 2), 0), ((0, 1), 1)] := by decide +kernel
  obtain ⟨s, hs, hsent⟩ := map_eq_some_iff.1 hrun
  refine ⟨s, hs, hsent, fun hpw => ?_⟩
  have horigins : ((s.sent 1).map (·.origin)).Pairwise fun x y => x.1 = y.1 → x.2 ≤ y.2 := pairwise_map.2 hpw
  have hmap : (s.sent 1).map (·.origin) = [(0, 0), (0, 2), (0, 1)] := by
    have := congrArg (List.map Prod.fst) hsent
    rwa [List.map_map] at this
  rw [hmap] at horigins
  exact absurd horigins (by decide)

end GvsocPulp.FloonocFlex
