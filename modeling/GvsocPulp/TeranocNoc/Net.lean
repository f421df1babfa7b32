import GvsocPulp.Lib.Pipeline
import GvsocPulp.TeranocNoc.Mesh

/-!
# The network of queues

What the routers and the network interfaces are for, without their events: requests move one queue at a time along their
lane, and a sender is stalled while the queue it sends to is over its size. The steps of a network and what each of them
keeps (`Inv.step`): the requests between two positions are, in order, those that were received and those on their lane.
-/

namespace GvsocPulp.TeranocNoc

open Function List Queue

structure Req where
  src : Pos
  dest : Pos
  payload : Nat
  deriving DecidableEq, Repr

/-- The requests from one network interface to one destination. -/
def Req.Between (src dest : Pos) (r : Req) : Bool := r.src = src ∧ r.dest = dest

@[simp] theorem between_iff {src dest : Pos} {r : Req} : r.Between src dest = true ↔ r.src = src ∧ r.dest = dest := by
  simp [Req.Between]

def Config.bound (cfg : Config) : Queue → Nat
  | .input _ _ => cfg.queueSize + 1
  | .output _ _ => cfg.queueSize

def setFlag (f : Pos → Dir → Bool) (p : Pos) (d : Dir) (b : Bool) : Pos → Dir → Bool :=
  fun p' d' => if p' = p ∧ d' = d then b else f p' d'

@[simp] theorem setFlag_self (f : Pos → Dir → Bool) (p : Pos) (d : Dir) (b : Bool) : setFlag f p d b p d = b := by
  simp [setFlag]

theorem setFlag_of_ne {f : Pos → Dir → Bool} {p p' : Pos} {d d' : Dir} {b : Bool} (h : ¬ (p' = p ∧ d' = d)) :
    setFlag f p d b p' d' = f p' d' := if_neg h

/-- A network between two of its steps. -/
structure Net where
  queues : Queue → List Req
  sender : Pos → Dir → Bool
  /-- The local output of a router is stalled. -/
  exit : Pos → Bool
  /-- The target has denied a request and not granted it. -/
  owed : Pos → Bool
  accepted : List Req
  received : Pos → List Req
  /-- What was handed to a target that owed a grant. -/
  early : List Req
  /-- The queues that were ever above their bound. -/
  overfull : List Queue

namespace Net

variable {cfg : Config} {n n' : Net} {p src dest : Pos} {d : Dir} {q q' : Queue} {r : Req} {rest : List Req}
  {deny : Bool}

def noteFull (cfg : Config) (n : Net) (q : Queue) : List Queue :=
  if cfg.bound q < (n.queues q).length + 1 then n.overfull ++ [q] else n.overfull

/-- The head of `q` goes to the end of `q'`. -/
def move (cfg : Config) (n : Net) (q q' : Queue) (r : Req) (rest : List Req) : Net :=
  { n with
    queues := update (update n.queues q rest) q' (n.queues q' ++ [r])
    overfull := n.noteFull cfg q' }

/-- A network interface sends a request. -/
def accept (cfg : Config) (n : Net) (r : Req) : Net :=
  { n with
    queues := update n.queues (.input r.src .local) (n.queues (.input r.src .local) ++ [r])
    sender := setFlag n.sender r.src .local (cfg.queueSize < (n.queues (.input r.src .local)).length + 1)
    accepted := n.accepted ++ [r]
    overfull := n.noteFull cfg (.input r.src .local) }

def advance (cfg : Config) (n : Net) (p : Pos) (d : Dir) (r : Req) (rest : List Req) : Net :=
  { n.move cfg (.input p d) (.output p (route p r.dest)) r rest with
    sender := if rest.length = cfg.queueSize then setFlag n.sender p d false else n.sender }

def forward (cfg : Config) (n : Net) (p : Pos) (d : Dir) (r : Req) (rest : List Req) : Net :=
  { n.move cfg (.output p d) (.input (getPosFromQueue p d) d.opposite) r rest with
    sender :=
      if cfg.queueSize < (n.queues (.input (getPosFromQueue p d) d.opposite)).length + 1 then
        setFlag n.sender (getPosFromQueue p d) d.opposite true
      else n.sender }

/-- From the local output to the target, which may deny the request. -/
def deliver (n : Net) (p : Pos) (r : Req) (rest : List Req) (deny : Bool) : Net :=
  { n with
    queues := update n.queues (.output p .local) rest
    received := update n.received p (n.received p ++ [r])
    early := if n.owed p then n.early ++ [r] else n.early
    owed := if deny then update n.owed p true else n.owed
    exit := if deny then update n.exit p true else n.exit }

def grant (n : Net) (p : Pos) : Net :=
  { n with owed := update n.owed p false, exit := update n.exit p false }

inductive Step (cfg : Config) (n : Net) : Net → Prop
  | accept {r : Req} (hsrc : cfg.Mesh r.src) (hdest : cfg.Mesh r.dest) (h : n.sender r.src .local = false) :
      Step cfg n (n.accept cfg r)
  | advance {p : Pos} {d : Dir} {r : Req} {rest : List Req} (h : n.queues (.input p d) = r :: rest)
      (hroom : (n.queues (.output p (route p r.dest))).length < cfg.queueSize) : Step cfg n (n.advance cfg p d r rest)
  | forward {p : Pos} {d : Dir} {r : Req} {rest : List Req} (hd : d ≠ .local) (h : n.queues (.output p d) = r :: rest)
      (hgo : n.sender (getPosFromQueue p d) d.opposite = false) :
      Step cfg n (n.forward cfg p d r rest)
  | deliver {p : Pos} {r : Req} {rest : List Req} {deny : Bool} (h : n.queues (.output p .local) = r :: rest)
      (hgo : n.exit p = false) : Step cfg n (n.deliver p r rest deny)
  | grant {p : Pos} (h : n.owed p = true) : Step cfg n (n.grant p)

structure Inv (cfg : Config) (n : Net) : Prop where
  located : ∀ q, ∀ r ∈ n.queues q, cfg.Mesh r.src ∧ cfg.Mesh r.dest ∧ q ∈ lane r.dest r.src .local
  flow : ∀ src dest, n.accepted.filter (Req.Between src dest) = (n.received dest).filter (Req.Between src dest) ++
    (lane dest src .local).flatMap fun q => (n.queues q).filter (Req.Between src dest)
  atDest : ∀ p, ∀ r ∈ n.received p, r.dest = p
  length_le : ∀ q, (n.queues q).length ≤ cfg.bound q
  sender_iff : ∀ p d, n.sender p d = true ↔ cfg.queueSize < (n.queues (.input p d)).length
  exit_eq : ∀ p, n.exit p = n.owed p
  owed_mesh : ∀ p, n.owed p = true → cfg.Mesh p
  early : n.early = []
  overfull : n.overfull = []

/-! ## A request moves on -/

/-- `q'` is the queue that comes after `q` for this request. -/
def Next (r : Req) (q q' : Queue) : Prop := ∃ bs as, lane r.dest r.src .local = bs ++ q' :: q :: as

theorem Next.ne (h : Next r q q') : q ≠ q' := by
  obtain ⟨bs, as, heq⟩ := h
  have hnd := lane_nodup r.dest r.src .local
  rw [heq] at hnd
  have hmem := (nodup_cons.1 (nodup_append.1 hnd).2.1).1
  rintro rfl
  exact hmem mem_cons_self

theorem Next.mem (h : Next r q q') : q' ∈ lane r.dest r.src .local := by
  obtain ⟨bs, as, heq⟩ := h
  rw [heq]
  simp

@[simp] theorem move_queues_to (n : Net) (q q' : Queue) (r : Req) (rest : List Req) :
    (n.move cfg q q' r rest).queues q' = n.queues q' ++ [r] := update_self ..

theorem move_queues_from (hne : q ≠ q') : (n.move cfg q q' r rest).queues q = rest := by
  show update _ _ _ _ = _
  rw [update_of_ne hne, update_self]

theorem move_queues_of_ne {q₀ : Queue} (hq : q₀ ≠ q) (hq' : q₀ ≠ q') :
    (n.move cfg q q' r rest).queues q₀ = n.queues q₀ := by
  show update _ _ _ _ = _
  rw [update_of_ne hq', update_of_ne hq]

theorem mem_move {q₀ : Queue} {r₀ : Req} (h : n.queues q = r :: rest) (hne : q ≠ q')
    (hr : r₀ ∈ (n.move cfg q q' r rest).queues q₀) : r₀ ∈ n.queues q₀ ∨ q₀ = q' ∧ r₀ = r := by
  by_cases hto : q₀ = q'
  · subst hto
    rw [move_queues_to, mem_append, mem_singleton] at hr
    exact hr.imp_right fun heq => ⟨rfl, heq⟩
  · by_cases hfrom : q₀ = q
    · subst hfrom
      rw [move_queues_from hne] at hr
      exact .inl (h ▸ mem_cons_of_mem _ hr)
    · rw [move_queues_of_ne hfrom hto] at hr
      exact .inl hr

theorem Inv.located_move (hinv : n.Inv cfg) (h : n.queues q = r :: rest) (hnext : Next r q q') :
    ∀ q₀, ∀ r₀ ∈ (n.move cfg q q' r rest).queues q₀, cfg.Mesh r₀.src ∧ cfg.Mesh r₀.dest ∧
      q₀ ∈ lane r₀.dest r₀.src .local := by
  intro q₀ r₀ hr
  rcases mem_move h hnext.ne hr with hr | ⟨rfl, rfl⟩
  · exact hinv.located q₀ r₀ hr
  · obtain ⟨hsrc, hdest, -⟩ := hinv.located q r₀ (h ▸ mem_cons_self)
    exact ⟨hsrc, hdest, hnext.mem⟩

theorem lane_move (h : n.queues q = r :: rest) (hnext : Next r q q') (src dest : Pos) :
    ((lane dest src .local).flatMap fun q₀ => ((n.move cfg q q' r rest).queues q₀).filter (Req.Between src dest)) =
      (lane dest src .local).flatMap fun q₀ => (n.queues q₀).filter (Req.Between src dest) := by
  by_cases hr : r.Between src dest = true
  · obtain ⟨hsrc, hdest⟩ := between_iff.1 hr
    subst hsrc hdest
    have hne := hnext.ne
    obtain ⟨bs, as, heq⟩ := hnext
    have hnd := lane_nodup r.dest r.src .local
    rw [heq] at hnd ⊢
    have hfrom : (n.queues q).filter (Req.Between r.src r.dest) = r :: rest.filter (Req.Between r.src r.dest) := by
      rw [h, filter_cons_of_pos hr]
    refine Lib.flatMap_move hnd hfrom ?_ ?_ ?_
    · rw [move_queues_from hne]
    · rw [move_queues_to, filter_append, filter_cons_of_pos hr, filter_nil]
    · intro q₀ hq hq'
      rw [move_queues_of_ne hq hq']
  · refine Lib.flatMap_keep fun q₀ _ => ?_
    by_cases hto : q₀ = q'
    · subst hto
      rw [move_queues_to, filter_append, filter_cons_of_neg hr, filter_nil, append_nil]
    · by_cases hfrom : q₀ = q
      · subst hfrom
        rw [move_queues_from hnext.ne, h, filter_cons_of_neg hr]
      · rw [move_queues_of_ne hfrom hto]

section

variable (hinv : n.Inv cfg)
include hinv

theorem Inv.length_move (h : n.queues q = r :: rest) (hne : q ≠ q') (hroom : (n.queues q').length < cfg.bound q')
    (q₀ : Queue) :
    ((n.move cfg q q' r rest).queues q₀).length ≤ cfg.bound q₀ := by
  by_cases hto : q₀ = q'
  · subst hto
    rw [move_queues_to, length_append]
    exact hroom
  · by_cases hfrom : q₀ = q
    · subst hfrom
      have hle := hinv.length_le q₀
      rw [h, length_cons] at hle
      rw [move_queues_from hne]
      omega
    · rw [move_queues_of_ne hfrom hto]
      exact hinv.length_le q₀

theorem noteFull_eq (hroom : (n.queues q).length < cfg.bound q) : n.noteFull cfg q = [] := by
  rw [noteFull, if_neg (by omega), hinv.overfull]

theorem Inv.mesh (h : n.queues q = r :: rest) : cfg.Mesh q.pos := by
  obtain ⟨hsrc, hdest, hq⟩ := hinv.located q r (h ▸ mem_cons_self)
  exact mesh_of_mem hdest hsrc hq

theorem Inv.next_output (h : n.queues (.input p d) = r :: rest) :
    Next r (.input p d) (.output p (route p r.dest)) :=
  mem_lane_input (hinv.located _ r (h ▸ mem_cons_self)).2.2

theorem Inv.route_eq (h : n.queues (.output p d) = r :: rest) : d = route p r.dest :=
  (mem_lane_output (hinv.located _ r (h ▸ mem_cons_self)).2.2).1

theorem Inv.next_input (hd : d ≠ .local) (h : n.queues (.output p d) = r :: rest) :
    Next r (.output p d) (.input (getPosFromQueue p d) d.opposite) := by
  have hnext := (mem_lane_output (hinv.located _ r (h ▸ mem_cons_self)).2.2).2
  rwa [if_neg] at hnext
  intro hp
  exact hd (by rw [hinv.route_eq h, route_eq_local, hp])

theorem Inv.sender_room (hgo : n.sender p d = false) :
    (n.queues (.input p d)).length < cfg.bound (.input p d) := by
  have hnot : ¬ cfg.queueSize < (n.queues (.input p d)).length := fun h => by
    rw [(hinv.sender_iff p d).2 h] at hgo
    cases hgo
  show _ < cfg.queueSize + 1
  omega

/-! ## What every step keeps -/

theorem Inv.flow_move (h : n.queues q = r :: rest) (hnext : Next r q q') (src dest : Pos) :
    n.accepted.filter (Req.Between src dest) = (n.received dest).filter (Req.Between src dest) ++
      (lane dest src .local).flatMap fun q₀ => ((n.move cfg q q' r rest).queues q₀).filter (Req.Between src dest) := by
  rw [hinv.flow, lane_move h hnext]

theorem Inv.advance (h : n.queues (.input p d) = r :: rest)
    (hroom : (n.queues (.output p (route p r.dest))).length < cfg.queueSize) : (n.advance cfg p d r rest).Inv cfg := by
  have hnext := hinv.next_output h
  refine ⟨hinv.located_move h hnext, hinv.flow_move h hnext, hinv.atDest, hinv.length_move h hnext.ne hroom,
    fun p' d' => ?_, hinv.exit_eq, hinv.owed_mesh, hinv.early, noteFull_eq hinv hroom⟩
  · show (if rest.length = cfg.queueSize then setFlag n.sender p d false else n.sender) p' d' = true ↔
      cfg.queueSize < ((n.move cfg (.input p d) (.output p (route p r.dest)) r rest).queues (.input p' d')).length
    by_cases heq : p' = p ∧ d' = d
    · obtain ⟨rfl, rfl⟩ := heq
      have hold := hinv.sender_iff p' d'
      rw [h, length_cons] at hold
      rw [move_queues_from hnext.ne]
      split_ifs with hfull
      · rw [setFlag_self, hfull]
        simp
      · rw [hold]
        omega
    · have hq : input p' d' ≠ .input p d := fun hq => heq (input.inj hq)
      have hout : input p' d' ≠ .output p (route p r.dest) := nofun
      rw [move_queues_of_ne hq hout, ← hinv.sender_iff p' d']
      split_ifs
      · rw [setFlag_of_ne heq]
      · rfl

theorem Inv.forward (hd : d ≠ .local) (h : n.queues (.output p d) = r :: rest)
    (hgo : n.sender (getPosFromQueue p d) d.opposite = false) : (n.forward cfg p d r rest).Inv cfg := by
  have hnext := hinv.next_input hd h
  have hroom := hinv.sender_room hgo
  refine ⟨hinv.located_move h hnext, hinv.flow_move h hnext, hinv.atDest, hinv.length_move h hnext.ne hroom,
    fun p' d' => ?_, hinv.exit_eq, hinv.owed_mesh, hinv.early, noteFull_eq hinv hroom⟩
  · show (if cfg.queueSize < (n.queues (.input (getPosFromQueue p d) d.opposite)).length + 1 then
      setFlag n.sender (getPosFromQueue p d) d.opposite true else n.sender) p' d' = true ↔ cfg.queueSize <
        ((n.move cfg (.output p d) (.input (getPosFromQueue p d) d.opposite) r rest).queues (.input p' d')).length
    by_cases heq : p' = getPosFromQueue p d ∧ d' = d.opposite
    · obtain ⟨rfl, rfl⟩ := heq
      rw [move_queues_to, length_append, length_singleton]
      split_ifs with hfull
      · rw [setFlag_self]
        exact ⟨fun _ => hfull, fun _ => rfl⟩
      · rw [hgo]
        exact ⟨by simp, fun hlt => absurd hlt hfull⟩
    · have hq : input p' d' ≠ .input (getPosFromQueue p d) d.opposite := fun hq => heq (input.inj hq)
      have hout : input p' d' ≠ .output p d := by simp
      rw [move_queues_of_ne hout hq, ← hinv.sender_iff p' d']
      split_ifs
      · rw [setFlag_of_ne heq]
      · rfl

end

theorem deliver_queues_of_ne (hq : q ≠ .output p .local) : (n.deliver p r rest deny).queues q = n.queues q :=
  update_of_ne hq ..

@[simp] theorem deliver_queues_self : (n.deliver p r rest deny).queues (.output p .local) = rest := update_self ..

theorem mem_deliver {r₀ : Req} (h : n.queues (.output p .local) = r :: rest)
    (hr : r₀ ∈ (n.deliver p r rest deny).queues q) : r₀ ∈ n.queues q := by
  by_cases hq : q = .output p .local
  · subst hq
    rw [deliver_queues_self] at hr
    exact h ▸ mem_cons_of_mem _ hr
  · rwa [deliver_queues_of_ne hq] at hr

theorem Inv.flow_deliver (hinv : n.Inv cfg) (h : n.queues (.output p .local) = r :: rest) (src dest : Pos) :
    n.accepted.filter (Req.Between src dest) =
      ((n.deliver p r rest deny).received dest).filter (Req.Between src dest) ++
        (lane dest src .local).flatMap fun q => ((n.deliver p r rest deny).queues q).filter (Req.Between src dest) := by
  have hdest : p = r.dest := route_eq_local.1 (hinv.route_eq h).symm
  have hmem := (hinv.located _ r (h ▸ mem_cons_self)).2.2
  have hlane := (mem_lane_output hmem).2
  rw [if_pos hdest] at hlane
  by_cases hr : r.Between src dest = true
  · obtain ⟨rfl, rfl⟩ := between_iff.1 hr
    subst hdest
    obtain ⟨as, heq⟩ := hlane
    have hnd := lane_nodup r.dest r.src .local
    rw [heq] at hnd
    have hfrom : (n.queues (.output r.dest .local)).filter (Req.Between r.src r.dest) =
        r :: rest.filter (Req.Between r.src r.dest) := by
      rw [h, filter_cons_of_pos hr]
    have hto : ((n.deliver r.dest r rest deny).queues (.output r.dest .local)).filter (Req.Between r.src r.dest) =
        rest.filter (Req.Between r.src r.dest) := by
      rw [deliver_queues_self]
    have hother : ∀ q, q ≠ .output r.dest .local → ((n.deliver r.dest r rest deny).queues q).filter
      (Req.Between r.src r.dest) =
        (n.queues q).filter (Req.Between r.src r.dest) := fun q hq => by
      rw [deliver_queues_of_ne hq]
    rw [hinv.flow, heq, Lib.flatMap_leave hnd hfrom hto hother]
    show _ = (update n.received r.dest (n.received r.dest ++ [r]) r.dest).filter _ ++ _
    rw [update_self, filter_append, filter_cons_of_pos hr, filter_nil, append_assoc]
    rfl
  · rw [hinv.flow]
    congr 1
    · show _ = (update n.received p (n.received p ++ [r]) dest).filter _
      by_cases hp : dest = p
      · subst hp
        rw [update_self, filter_append, filter_cons_of_neg hr, filter_nil, append_nil]
      · rw [update_of_ne hp]
    · refine (Lib.flatMap_keep fun q _ => ?_).symm
      by_cases hq : q = .output p .local
      · subst hq
        rw [deliver_queues_self, h, filter_cons_of_neg hr]
      · rw [deliver_queues_of_ne hq]

theorem Inv.deliver (hinv : n.Inv cfg) (h : n.queues (.output p .local) = r :: rest) (hgo : n.exit p = false) :
    (n.deliver p r rest deny).Inv cfg := by
  have howed : n.owed p = false := hinv.exit_eq p ▸ hgo
  refine ⟨fun q r₀ hr => hinv.located q r₀ (mem_deliver h hr), hinv.flow_deliver h, fun p' r₀ hr => ?_, fun q => ?_,
    fun p' d' => ?_, fun p' => ?_, fun p' ho => ?_, ?_, hinv.overfull⟩
  · replace hr : r₀ ∈ update n.received p (n.received p ++ [r]) p' := hr
    by_cases hp : p' = p
    · subst hp
      rw [update_self, mem_append, mem_singleton] at hr
      rcases hr with hr | rfl
      · exact hinv.atDest _ _ hr
      · exact (route_eq_local.1 (hinv.route_eq h).symm).symm
    · rw [update_of_ne hp] at hr
      exact hinv.atDest _ _ hr
  · by_cases hq : q = .output p .local
    · subst hq
      have hle := hinv.length_le (.output p .local)
      rw [h, length_cons] at hle
      rw [deliver_queues_self]
      omega
    · rw [deliver_queues_of_ne hq]
      exact hinv.length_le q
  · have hq : input p' d' ≠ .output p .local := by simp
    rw [deliver_queues_of_ne hq]
    exact hinv.sender_iff p' d'
  · show (if deny then update n.exit p true else n.exit) p' =
      (if deny then update n.owed p true else n.owed) p'
    rw [funext hinv.exit_eq]
  · replace ho : (if deny then update n.owed p true else n.owed) p' = true := ho
    by_cases hp : p' = p
    · exact hp ▸ hinv.mesh h
    · refine hinv.owed_mesh p' ?_
      split_ifs at ho
      · rwa [update_of_ne hp] at ho
      · exact ho
  · show (if n.owed p then n.early ++ [r] else n.early) = []
    rw [howed, if_neg (by simp), hinv.early]

theorem accept_queues_self : (n.accept cfg r).queues (.input r.src .local) = n.queues (.input r.src .local) ++ [r] :=
  update_self ..

theorem accept_queues_of_ne (hq : q ≠ .input r.src .local) : (n.accept cfg r).queues q = n.queues q :=
  update_of_ne hq ..

variable (hinv : n.Inv cfg)
include hinv

theorem Inv.flow_accept (src dest : Pos) : (n.accept cfg r).accepted.filter (Req.Between src dest) =
    (n.received dest).filter (Req.Between src dest) ++
      (lane dest src .local).flatMap fun q => ((n.accept cfg r).queues q).filter (Req.Between src dest) := by
  show (n.accepted ++ [r]).filter _ = _
  rw [filter_append, hinv.flow, append_assoc]
  congr 1
  by_cases hr : r.Between src dest = true
  · obtain ⟨rfl, rfl⟩ := between_iff.1 hr
    obtain ⟨bs, heq⟩ := lane_ends r.dest r.src .local
    have hnd := lane_nodup r.dest r.src .local
    rw [heq] at hnd ⊢
    rw [filter_cons_of_pos hr, filter_nil]
    refine (Lib.flatMap_enter hnd ?_ fun q hq => ?_).symm
    · rw [accept_queues_self, filter_append, filter_cons_of_pos hr, filter_nil]
    · rw [accept_queues_of_ne hq]
  · rw [filter_cons_of_neg hr, filter_nil, append_nil]
    refine (Lib.flatMap_keep fun q _ => ?_).symm
    by_cases hq : q = .input r.src .local
    · subst hq
      rw [accept_queues_self, filter_append, filter_cons_of_neg hr, filter_nil, append_nil]
    · rw [accept_queues_of_ne hq]

theorem Inv.accept (hsrc : cfg.Mesh r.src) (hdest : cfg.Mesh r.dest)
    (hgo : n.sender r.src .local = false) : (n.accept cfg r).Inv cfg := by
  have hroom := hinv.sender_room hgo
  refine ⟨fun q r₀ hr => ?_, hinv.flow_accept, hinv.atDest, fun q => ?_, fun p' d' => ?_, hinv.exit_eq,
    hinv.owed_mesh, hinv.early, noteFull_eq hinv hroom⟩
  · by_cases hq : q = .input r.src .local
    · subst hq
      rw [accept_queues_self, mem_append, mem_singleton] at hr
      rcases hr with hr | rfl
      · exact hinv.located _ _ hr
      · obtain ⟨bs, heq⟩ := lane_ends r₀.dest r₀.src .local
        exact ⟨hsrc, hdest, heq ▸ by simp⟩
    · rw [accept_queues_of_ne hq] at hr
      exact hinv.located _ _ hr
  · by_cases hq : q = .input r.src .local
    · subst hq
      rw [accept_queues_self, length_append]
      exact hroom
    · rw [accept_queues_of_ne hq]
      exact hinv.length_le q
  · show setFlag n.sender r.src .local _ p' d' = true ↔ _
    by_cases heq : p' = r.src ∧ d' = .local
    · obtain ⟨rfl, rfl⟩ := heq
      rw [accept_queues_self, setFlag_self, decide_eq_true_iff, length_append, length_singleton]
    · rw [setFlag_of_ne heq, accept_queues_of_ne fun hq => heq (input.inj hq)]
      exact hinv.sender_iff p' d'

theorem Inv.grant : (n.grant p).Inv cfg := by
  refine { hinv with exit_eq := fun p' => ?_, owed_mesh := fun p' ho => ?_ }
  · show update n.exit p false p' = update n.owed p false p'
    rw [funext hinv.exit_eq]
  · replace ho : update n.owed p false p' = true := ho
    by_cases hp : p' = p
    · subst hp
      rw [update_self] at ho
      cases ho
    · rw [update_of_ne hp] at ho
      exact hinv.owed_mesh p' ho

theorem Inv.step (h : n.Step cfg n') : n'.Inv cfg := by
  cases h with
  | accept hsrc hdest hgo => exact hinv.accept hsrc hdest hgo
  | advance h hroom => exact hinv.advance h hroom
  | forward hd h hgo => exact hinv.forward hd h hgo
  | deliver h hgo => exact hinv.deliver h hgo
  | grant _ => exact hinv.grant

end Net

end GvsocPulp.TeranocNoc
