import GvsocPulp.FractalSync.Tree
import GvsocPulp.FractalSync.Registers

/-!
# `FractalSync`: the phases of a barrier

How far each port of a barrier is (`Phase`), and how the phases of a port and of the ports below it go together
(`PhasesOk`): the request of a port comes when those below it have gone up, and they are answered when it has been.

- `PhasesOk.sent_of_done`: where one participant is answered, all have asked;
- `PhasesOk.all_done`: where all are answered, nothing of the barrier is left;
- `PhasesOk.done_of_quiet`: where all have asked and nothing moves, all are answered.
-/

namespace GvsocPulp.FractalSync

variable {ν : Type} {t : Tree ν}

/-- A request of a port for a barrier: not made, to be handled, taken by the FSM, counted, sent up, answered to the node
below, done. -/
inductive Phase
  | before
  | req
  | proc
  | kept
  | up
  | ans
  | done
  deriving DecidableEq, Repr

namespace Phase

/-- What the node notes of it. -/
def reg : Phase → Reg
  | before | req | ans | done => .none
  | proc => .proc
  | kept => .kept
  | up => .up

/-- Where the ports of a pair are together: still waiting for each other, gone up, answered. -/
inductive Stage
  | waiting
  | gone
  | answered
  deriving DecidableEq, Repr

def stage : Phase → Stage
  | before | req | proc | kept => .waiting
  | up => .gone
  | ans | done => .answered

def below : Phase → Stage
  | before => .waiting
  | req | proc | kept | up | ans => .gone
  | done => .answered

end Phase

structure PhasesOk (b : Barrier t) (ph : ν × Dir → Phase) : Prop where
  unused : ∀ port, b.used port = false → ph port = .before
  top : ∃ stage, stage ≠ .gone ∧ ∀ port, half port = b.top → (ph port).stage = stage
  chain : ∀ port port', b.used port = true → half port ≠ b.top → t.up (half port) = some port' → b.used port' = true →
    (ph port).stage = (ph port').below
  leaf : ∀ port, t.down port = none → ph port ≠ .ans
  pass : ∀ port, b.used port = true → b.mask &&& (t.cfg port.1).mask = 0 → ph port ≠ .proc ∧ ph port ≠ .kept

namespace PhasesOk

variable {b : Barrier t} {ph ph' : ν × Dir → Phase} {port port' : ν × Dir}

theorem init (b : Barrier t) : PhasesOk b fun _ => .before where
  unused _ _ := rfl
  top := ⟨.waiting, nofun, fun _ _ => rfl⟩
  chain _ _ _ _ _ _ := rfl
  leaf _ _ := nofun
  pass _ _ _ := ⟨nofun, nofun⟩

theorem used (h : PhasesOk b ph) (hne : ph port ≠ .before) : b.used port = true := by
  cases hu : b.used port with
  | true => rfl
  | false => exact absurd (h.unused port hu) hne

theorem Barrier.below_ne_top (b : Barrier t) {pair : ν × Pair} (hused : b.used port = true)
    (hd : t.down port = some pair) (hhalf : half port' = pair) : half port' ≠ b.top := by
  intro htop
  have hlevel := t.level_up pair port ((t.down_iff port pair).1 hd)
  have hle := b.level_le port hused
  rw [← htop, hhalf] at hle
  omega

section

variable (h : PhasesOk b ph) (hused : b.used port = true)
include h hused

theorem below_eq {pair : ν × Pair} (hd : t.down port = some pair)
    (hhalf : half port' = pair) (hused' : b.used port' = true) : (ph port').stage = (ph port).below := by
  refine h.chain port' port hused' (Barrier.below_ne_top b hused hd hhalf) ?_ hused
  rw [hhalf]
  exact (t.down_iff port pair).1 hd

/-! ## Complete uses -/

theorem top_answered (hport : (ph port).stage = .answered) :
    ∀ port', half port' = b.top → (ph port').stage = .answered := by
  obtain ⟨port₁, htop₁, hstage⟩ := b.exists_top (P := fun p => (ph p).stage = .answered) (by
    intro port port' hused hst htop hup hused'
    have hbelow := h.chain port port' hused htop hup hused'
    rw [hst] at hbelow
    cases hp : ph port' <;> rw [hp] at hbelow <;> first | rfl | cases hbelow) hused hport
  obtain ⟨stage, -, hall⟩ := h.top
  intro port' htop'
  rw [hall port' htop', ← hall port₁ htop₁, hstage]

theorem not_waiting (hport : (ph port).stage = .answered) (hused' : b.used port' = true) :
    (ph port').stage ≠ .waiting := by
  refine b.forall_used (P := fun p => (ph p).stage ≠ .waiting) (fun port₁ htop => ?_) ?_ hused'
  · rw [h.top_answered hused hport port₁ htop]
    nofun
  · intro port₁ port₂ hused₁ htop hup hused₂ hst
    rw [h.chain port₁ port₂ hused₁ htop hup hused₂]
    cases hp : ph port₂ <;> rw [hp] at hst <;> first | exact absurd rfl hst | decide

end

/-- **No wake before all have asked.** -/
theorem sent_of_done (h : PhasesOk b ph) (hdone : ph port = .done) {part : ν × Dir} (hpart : part ∈ b.parts) :
    ph part ≠ .before := by
  intro hbefore
  have hused : b.used port = true := h.used (by rw [hdone]; nofun)
  refine h.not_waiting hused (by rw [hdone]; rfl) ((b.mem_parts part).1 hpart).1 ?_
  rw [hbefore]
  rfl

/-- **A complete use leaves nothing.** -/
theorem all_done (h : PhasesOk b ph) (hdone : ∀ part ∈ b.parts, ph part = .done) (hused : b.used port = true) :
    ph port = .done := by
  -- down from the port there is an answered participant
  have hanswered : ∃ port', b.used port' = true ∧ (ph port').stage = .answered := by
    obtain ⟨part, hpart, -⟩ := b.exists_part (P := fun _ => True) (fun p pair hp _ hd => by
      obtain ⟨port', hhalf, hused'⟩ := b.exists_used hp hd
      exact ⟨port', hhalf, hused', trivial⟩) hused trivial
    exact ⟨part, ((b.mem_parts part).1 hpart).1, by rw [hdone part hpart]; rfl⟩
  obtain ⟨port₁, hused₁, hst₁⟩ := hanswered
  by_contra hne
  have hwait := h.not_waiting hused₁ hst₁ hused
  -- a port that is not done leads to a participant that is not
  obtain ⟨part, hpart, hup⟩ := b.exists_part (P := fun p => (ph p).stage ≠ .waiting ∧ ph p ≠ .done) (by
    intro p pair hp hst hd
    obtain ⟨port', hhalf, hused'⟩ := b.exists_used hp hd
    have hbelow := h.below_eq hp hd hhalf hused'
    refine ⟨port', hhalf, hused', ?_⟩
    have hgone : (ph port').stage = .gone := by
      rw [hbelow]
      cases hpp : ph p <;> rw [hpp] at hst <;> first | rfl | exact absurd rfl hst.1 | exact absurd rfl hst.2
    exact ⟨by rw [hgone]; nofun, fun hd => by rw [hd] at hgone; cases hgone⟩) hused ⟨hwait, hne⟩
  exact hup.2 (hdone part hpart)

/-- Nothing moves: no request is to be handled or with the FSM, no answer on its way, and no pair is complete. -/
structure Still (ph : ν × Dir → Phase) : Prop where
  req : ∀ port, ph port ≠ .req
  proc : ∀ port, ph port ≠ .proc
  ans : ∀ port, ph port ≠ .ans
  both : ∀ pair : ν × Pair, ¬(ph (pair.1, pair.2.fst) = .kept ∧ ph (pair.1, pair.2.snd) = .kept)

theorem Still.before_or_kept (hs : Still ph) (hstage : (ph port).stage = .waiting) :
    ph port = .before ∨ ph port = .kept := by
  cases hp : ph port with
  | before => exact Or.inl rfl
  | kept => exact Or.inr rfl
  | req => exact absurd hp (hs.req port)
  | proc => exact absurd hp (hs.proc port)
  | up | ans | done => rw [hp] at hstage; cases hstage

theorem Still.exists_before (hs : Still ph) {pair : ν × Pair}
    (hstage : ∀ port, half port = pair → (ph port).stage = .waiting) : ∃ port, half port = pair ∧
      ph port = .before := by
  have hfst : half (pair.1, pair.2.fst) = pair := by rw [half, Pair.fst_pair]
  have hsnd : half (pair.1, pair.2.snd) = pair := by rw [half, Pair.snd_pair]
  rcases hs.before_or_kept (hstage _ hfst) with h₁ | h₁
  · exact ⟨_, hfst, h₁⟩
  · rcases hs.before_or_kept (hstage _ hsnd) with h₂ | h₂
    · exact ⟨_, hsnd, h₂⟩
    · exact absurd ⟨h₁, h₂⟩ (hs.both pair)

theorem exists_unsent (h : PhasesOk b ph) (hs : Still ph) (hused : b.used port = true) (hbefore : ph port = .before) :
    ∃ part ∈ b.parts, ph part = .before := by
  refine b.exists_part (P := fun p => ph p = .before) (fun p pair hp hb hd => ?_) hused hbefore
  have hwaiting : ∀ port', half port' = pair → b.used port' = true → (ph port').stage = .waiting := by
    intro port' hhalf hused'
    rw [h.below_eq hp hd hhalf hused', hb]
    rfl
  by_cases hmask : b.mask &&& (t.cfg pair.1).mask = 0
  · obtain ⟨port', hhalf, honly⟩ := b.used_pass p pair hp hd hmask
    have hused' : b.used port' = true := (honly port' hhalf).2 rfl
    refine ⟨port', hhalf, hused', ?_⟩
    rcases hs.before_or_kept (hwaiting port' hhalf hused') with hb' | hk
    · exact hb'
    · have hn : port'.1 = pair.1 := congrArg Prod.fst hhalf
      exact absurd hk (h.pass port' hused' (by rw [hn]; exact hmask)).2
  · have hall := b.used_sync p pair hp hd hmask
    obtain ⟨port', hhalf, hb'⟩ := hs.exists_before fun port' hhalf => hwaiting port' hhalf (hall port' hhalf)
    exact ⟨port', hhalf, hall port' hhalf, hb'⟩

/-- **Where nothing moves, all are answered once all have asked.** -/
theorem done_of_still (h : PhasesOk b ph) (hs : Still ph) (hsent : ∀ part ∈ b.parts, ph part ≠ .before)
    (hused : b.used port = true) : ph port = .done := by
  have hdone : ∀ p, (ph p).stage = .answered → ph p = .done := by
    intro p hst
    cases hp : ph p with
    | done => rfl
    | ans => exact absurd hp (hs.ans p)
    | before | req | proc | kept | up => rw [hp] at hst; cases hst
  obtain ⟨stage, hgone, htop⟩ := h.top
  cases stage with
  | gone => exact absurd rfl hgone
  | answered =>
    refine b.forall_used (P := fun p => ph p = .done) (fun p hp => hdone p (htop p hp)) ?_ hused
    intro p p' hp hne hup hp' hd
    refine hdone p ?_
    rw [h.chain p p' hp hne hup hp', hd]
    rfl
  | waiting =>
    obtain ⟨port', hhalf, hb⟩ := hs.exists_before htop
    obtain ⟨part, hpart, hbefore⟩ := h.exists_unsent hs (b.used_top port' hhalf) hb
    exact absurd hbefore (hsent part hpart)

/-! ## Moves -/

variable {pair : ν × Pair} {x : Phase}

theorem half_ne_of_up (hup : t.up pair = some port) : half port ≠ pair := by
  intro hhalf
  have hlevel := t.level_up pair port hup
  rw [← hhalf] at hlevel
  have hsame : (t.cfg (half port).1).level = (t.cfg port.1).level := rfl
  omega

theorem up_inj {pair' : ν × Pair} (hup : t.up pair = some port) (hup' : t.up pair' = some port) : pair = pair' := by
  rw [← t.down_iff] at hup hup'
  exact Option.some.inj (hup.symm.trans hup')

theorem above_before (h : PhasesOk b ph) (hused : b.used port = true) (hne : half port ≠ b.top)
    (hwait : (ph port).stage = .waiting) (hup : t.up (half port) = some port') (hused' : b.used port' = true) :
    ph port' = .before := by
  have hbelow := h.chain port port' hused hne hup hused'
  rw [hwait] at hbelow
  cases hp : ph port' <;> rw [hp] at hbelow <;> first | rfl | cases hbelow

variable [DecidableEq ν]

theorem move (h : PhasesOk b ph) (hused : b.used port = true)
    (hph : ∀ port', ph' port' = if port' = port then x else ph port') (hstage : x.stage = (ph port).stage)
    (hbelow : t.down port = none ∨ x.below = (ph port).below) (hans : x ≠ .ans)
    (hpass : b.mask &&& (t.cfg port.1).mask = 0 → x ≠ .proc ∧ x ≠ .kept) : PhasesOk b ph' := by
  have hst : ∀ port', (ph' port').stage = (ph port').stage := by
    intro port'
    rw [hph]
    split
    case isTrue heq => rw [heq, hstage]
    case isFalse => rfl
  obtain ⟨stage, hgone, htop⟩ := h.top
  refine ⟨fun p hp => ?_, ⟨stage, hgone, fun p hp => by rw [hst, htop p hp]⟩, fun p p' hp hne hup hp' => ?_,
    fun p hd => ?_, fun p hp hmask => ?_⟩
  · rw [hph, if_neg (fun heq => by rw [heq, hused] at hp; cases hp)]
    exact h.unused p hp
  · rw [hst, h.chain p p' hp hne hup hp', hph]
    split
    case isTrue heq =>
      subst heq
      rcases hbelow with hd | hbelow
      · rw [(t.down_iff _ _).2 hup] at hd
        cases hd
      · exact hbelow.symm
    case isFalse => rfl
  · rw [hph]
    split
    · exact hans
    · exact h.leaf p hd
  · rw [hph]
    split
    case isTrue heq =>
      subst heq
      exact hpass hmask
    case isFalse => exact h.pass p hp hmask

theorem movePair (h : PhasesOk b ph) (x : Phase) (new : ν × Dir → Phase) (hne : pair ≠ b.top)
    (hup : t.up pair = some port) (hused : b.used port = true) (hstage : x.stage = (ph port).stage)
    (hx : x ≠ .ans ∧ x ≠ .proc ∧ x ≠ .kept)
    (hnew : ∀ p, half p = pair → b.used p = true → (new p).stage = x.below ∧
      (t.down p ≠ none → (new p).below = (ph p).below) ∧ (t.down p = none → new p ≠ .ans) ∧ new p ≠ .proc ∧
      new p ≠ .kept)
    (hph : ∀ p, ph' p = if half p = pair ∧ b.used p = true then new p else if p = port then x else ph p) :
      PhasesOk b ph' := by
  have hnot := half_ne_of_up hup
  have hport : ph' port = x := by rw [hph, if_neg (fun heq => hnot heq.1), if_pos rfl]
  have hsame : ∀ p, half p ≠ pair → (ph' p).stage = (ph p).stage := by
    intro p hhalf
    rw [hph, if_neg (fun heq => hhalf heq.1)]
    split
    case isTrue heq => rw [heq, hstage]
    case isFalse => rfl
  obtain ⟨stage, hgone, htop⟩ := h.top
  refine ⟨fun p hp => ?_, ⟨stage, hgone, fun p hp => ?_⟩, fun p p' hp hnt hup' hp' => ?_, fun p hd => ?_,
    fun p hp hmask => ?_⟩
  · rw [hph, if_neg (fun heq => by rw [heq.2] at hp; cases hp), if_neg (fun heq => by rw [heq, hused] at hp; cases hp)]
    exact h.unused p hp
  · rw [hsame p fun heq => hne (heq.symm.trans hp), htop p hp]
  · by_cases hhalf : half p = pair
    · rw [hhalf, hup] at hup'
      cases hup'
      rw [hport, hph, if_pos ⟨hhalf, hp⟩, (hnew p hhalf hp).1]
    · have hd : t.down p' ≠ none := by rw [(t.down_iff _ _).2 hup']; nofun
      rw [hsame p hhalf, h.chain p p' hp hnt hup' hp', hph]
      split
      case isTrue heq => exact ((hnew p' heq.1 heq.2).2.1 hd).symm
      case isFalse => rw [if_neg (by rintro rfl; exact hhalf (up_inj hup' hup))]
  · rw [hph]
    split
    case isTrue heq => exact (hnew p heq.1 heq.2).2.2.1 hd
    case isFalse =>
      split
      · exact hx.1
      · exact h.leaf p hd
  · rw [hph]
    split
    case isTrue heq => exact (hnew p heq.1 heq.2).2.2.2
    case isFalse =>
      split
      · exact hx.2
      · exact h.pass p hp hmask

theorem goUp (h : PhasesOk b ph) (hne : pair ≠ b.top) (hup : t.up pair = some port) (hused : b.used port = true)
    (hbefore : ph port = .before) (hready : ∀ p, half p = pair → b.used p = true → (ph p).below = .gone)
    (hph : ∀ p, ph' p = if half p = pair ∧ b.used p = true then .up else if p = port then .req else ph p) :
    PhasesOk b ph' :=
  h.movePair .req (fun _ => .up) hne hup hused (by rw [hbefore]; rfl) ⟨nofun, nofun, nofun⟩
    (fun p hhalf hu => ⟨rfl, fun _ => (hready p hhalf hu).symm, nofun, nofun, nofun⟩) hph

def answered (t : Tree ν) (port : ν × Dir) : Phase := if t.down port = none then .done else .ans

omit [DecidableEq ν] in
theorem answered_stage : (answered t port).stage = .answered := by
  rw [answered]
  split <;> rfl

theorem endTop (h : PhasesOk b ph) (hready : ∀ p, half p = b.top → (ph p).below = .gone)
    (hph : ∀ p, ph' p = if half p = b.top then answered t p else ph p) : PhasesOk b ph' := by
  refine ⟨fun p hp => ?_, ⟨.answered, nofun, fun p hp => ?_⟩, fun p p' hp hnt hup' hp' => ?_, fun p hd => ?_,
    fun p hp hmask => ?_⟩
  · rw [hph, if_neg (fun heq => by rw [b.used_top p heq] at hp; cases hp)]
    exact h.unused p hp
  · rw [hph, if_pos hp, answered_stage]
  · have hd : t.down p' ≠ none := by rw [(t.down_iff _ _).2 hup']; nofun
    rw [hph, if_neg hnt, h.chain p p' hp hnt hup' hp', hph]
    split
    case isTrue heq =>
      rw [hready p' heq, answered, if_neg hd]
      rfl
    case isFalse => rfl
  · rw [hph, answered, if_pos hd]
    split
    · nofun
    · exact h.leaf p hd
  · rw [hph]
    split
    · rw [answered]
      split <;> exact ⟨nofun, nofun⟩
    · exact h.pass p hp hmask

theorem answer (h : PhasesOk b ph) (hne : pair ≠ b.top) (hup : t.up pair = some port) (hans : ph port = .ans)
    (hph : ∀ p, ph' p = if half p = pair ∧ b.used p = true then answered t p else if p = port then .done else ph p) :
    PhasesOk b ph' := by
  have hused : b.used port = true := h.used (by rw [hans]; nofun)
  refine h.movePair .done (answered t) hne hup hused (by rw [hans]; rfl) ⟨nofun, nofun, nofun⟩
    (fun p hhalf hp => ?_) hph
  have hgone : (ph p).stage = .gone := by
    rw [h.chain p port hp (hhalf ▸ hne) (hhalf ▸ hup) hused, hans]
    rfl
  refine ⟨answered_stage, fun hd => ?_, fun hd => ?_, ?_⟩
  · rw [answered, if_neg hd]
    cases hp' : ph p <;> rw [hp'] at hgone <;> first | rfl | cases hgone
  · rw [answered, if_pos hd]
    nofun
  · rw [answered]
    split <;> exact ⟨nofun, nofun⟩

end PhasesOk

end GvsocPulp.FractalSync
