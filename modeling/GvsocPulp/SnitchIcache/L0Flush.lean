import GvsocPulp.Lib.Run
import GvsocPulp.SnitchIcache.L0

/-!
# What the lines of the L0 hold

A line with a tag holds what has been read for it after its last flush, and so does the line of the refill in flight
once it has been read (`L0.Inv`). Every event keeps this but a flush behind which such a refill lands.
-/

namespace GvsocPulp.SnitchIcache

open Lib Function List Option L0

variable {way : Nat} {slot : L0Slot} {r : Request}

namespace L0

variable {cfg : Config} {s t : L0} {req latency : Nat} {data : List Byte}

structure Inv (cfg : Config) (s : L0) : Prop where
  traffic : s.toTraffic.Ok cfg
  ports : ∀ r ∈ s.reqs, r.port = 0
  lines : ∀ way, (s.lines way).tag ≠ noTag → s.Source cfg (s.lines way).tag (s.lines way).data
  /-- The line of the refill in flight has no tag. -/
  slot : ∀ slot, s.slot = some slot → (s.lines slot.way).tag = noTag ∧
    (slot.fetched = true → s.Source cfg slot.tag (s.lines slot.way).data) ∧
    ∀ req, slot.cpuReq = some req → ∃ r, s.reqs[req]? = some r ∧ cfg.tagOf r.addr = slot.tag
  delayed : ∀ x ∈ s.delayedResps, s.Fresh 0 x.2.1 x.2.2

namespace Inv

section

variable (h : Inv cfg s)
include h

theorem frame (hok : t.toTraffic.Ok cfg) (hlater : s.toTraffic.Later t.toTraffic)
    (hports : ∀ r ∈ t.reqs, r.port = 0) (hlines : t.lines = s.lines) (hslot : t.slot = s.slot)
    (hdelayed : t.delayedResps = s.delayedResps) : Inv cfg t := by
  refine ⟨hok, hports, fun way hway => ?_, fun slot hsl => ?_, fun x hx => ?_⟩
  · rw [hlines] at hway ⊢
    exact hlater.source (h.lines way hway)
  · rw [hslot] at hsl
    obtain ⟨htag, hfetched, hreq⟩ := h.slot slot hsl
    rw [hlines]
    exact ⟨htag, fun hf => hlater.source (hfetched hf), fun req hcpu =>
      (hreq req hcpu).imp fun r hr => ⟨Traffic.getElem?_of_prefix hlater.reqs hr.1, hr.2⟩⟩
  · rw [hdelayed] at hx
    exact hlater.fresh (h.delayed x hx)

theorem quiet (htraffic : t.toTraffic = s.toTraffic) (hlines : t.lines = s.lines) (hslot : t.slot = s.slot)
    (hdelayed : t.delayedResps = s.delayedResps) : Inv cfg t :=
  h.frame (htraffic ▸ h.traffic) (htraffic ▸ Traffic.Later.refl _) (htraffic ▸ h.ports) hlines hslot hdelayed

theorem answer {req : Nat} {data : List Byte} (hf : s.Fresh 0 req data) :
    Inv cfg { s with toTraffic := s.toTraffic.answer 0 req data } :=
  h.frame (h.traffic.answer hf) .answer h.ports rfl rfl rfl

theorem land (way : Nat) (line : Line) (hok : t.toTraffic.Ok cfg) (hlater : s.toTraffic.Later t.toTraffic)
    (hports : ∀ r ∈ t.reqs, r.port = 0) (hlines : t.lines = update s.lines way line)
    (hline : line.tag ≠ noTag → t.Source cfg line.tag line.data) (hslot : t.slot = none)
    (hdelayed : t.delayedResps = s.delayedResps) : Inv cfg t := by
  refine ⟨hok, hports, fun w hw => ?_, fun slot hsl => ?_, fun x hx => ?_⟩
  · rw [hlines] at hw ⊢
    by_cases hway : w = way
    · rw [hway, update_self] at hw ⊢
      exact hline hw
    · rw [update_of_ne hway] at hw ⊢
      exact hlater.source (h.lines w hw)
  · rw [hslot] at hsl
    cases hsl
  · rw [hdelayed] at hx
    exact hlater.fresh (h.delayed x hx)

theorem take {line : Line}
    (htraffic : t.toTraffic = s.toTraffic) (hlines : t.lines = update s.lines way line) (hline : line.tag = noTag)
    (hslot : t.slot = some slot) (hway : slot.way = way) (hfetched : slot.fetched = false)
    (hreq : ∀ req, slot.cpuReq = some req → ∃ r, s.reqs[req]? = some r ∧ cfg.tagOf r.addr = slot.tag)
    (hdelayed : t.delayedResps = s.delayedResps) : Inv cfg t := by
  have hlater : s.toTraffic.Later t.toTraffic := htraffic ▸ .refl _
  refine ⟨htraffic ▸ h.traffic, htraffic ▸ h.ports, fun w hw => ?_, fun slot' hsl => ?_, fun x hx => ?_⟩
  · rw [hlines] at hw ⊢
    by_cases hway : w = way
    · rw [hway, update_self] at hw
      exact (hw hline).elim
    · rw [update_of_ne hway] at hw ⊢
      exact hlater.source (h.lines w hw)
  · rw [hslot] at hsl
    cases hsl
    rw [hlines, hway, update_self]
    refine ⟨hline, fun hf => ?_, htraffic ▸ hreq⟩
    rw [hfetched] at hf
    cases hf
  · rw [hdelayed] at hx
    exact hlater.fresh (h.delayed x hx)

theorem checkState : Inv cfg s.checkState := h.quiet rfl rfl rfl rfl

theorem decidePrefetch (way : Nat) (addr : BitVec 32) :
    Inv cfg (s.decidePrefetch cfg way addr) ∧ (s.decidePrefetch cfg way addr).toTraffic = s.toTraffic := by
  rw [L0.decidePrefetch]
  simp only
  split_ifs with hoff hhit
  · exact ⟨h, rfl⟩
  · exact ⟨h, rfl⟩
  · split
    · exact ⟨h.take rfl rfl rfl rfl rfl rfl nofun rfl, rfl⟩
    · exact ⟨h.quiet rfl rfl rfl rfl, rfl⟩

theorem sendPrefetch (status : RefillStatus) : Inv cfg (s.sendPrefetch cfg status) := by
  rw [L0.sendPrefetch]
  split
  · rename_i slot hslot hpending
    cases status with
    | denied | granted =>
      obtain ⟨htag, hfetched, hreq⟩ := h.slot slot hslot
      refine { h with slot := fun slot' hsl => ?_ }
      cases hsl
      exact ⟨htag, hfetched, hreq⟩
    | done latency =>
      exact Inv.checkState (h.land slot.way _ (h.traffic.read _ _) .read h.ports
        (readLine_lines cfg s slot.tag slot.way _)
        (fun _ => h.traffic.source_read slot.tag) rfl rfl)
  · exact h

end

/-- What `handle_req` makes of the cache, and of a fetch that is done. -/
def Handled (cfg : Config) (s : L0) (req : Nat) (result : L0 × L0Status) : Prop :=
  Inv cfg result.1 ∧ s.toTraffic.Later result.1.toTraffic ∧
    ∀ latency data, result.2 = .done latency data → result.1.Fresh 0 req data

theorem refill (h : Inv cfg s) {req : Nat} (hr : s.reqs[req]? = some r) (status : RefillStatus) :
    Handled cfg s req (s.refill cfg (cfg.tagOf r.addr) req r status) := by
  have hqueue : ∀ next, Handled cfg s req
      ({ s with rrVictim := next, refillPendingReqs := s.refillPendingReqs ++ [req] }, .granted) := fun next =>
    ⟨h.quiet rfl rfl rfl rfl, .refl _, nofun⟩
  rw [L0.refill]
  split_ifs with htag hslot
  · exact hqueue s.rrVictim
  · exact hqueue s.rrVictim
  · split
    · exact hqueue _
    · rename_i way next hvictim
      cases status with
      | granted =>
        refine ⟨h.take rfl rfl rfl rfl rfl rfl (fun req' hreq' => ?_) rfl, .refl _, nofun⟩
        cases hreq'
        exact ⟨r, hr, rfl⟩
      | denied => exact ⟨h.quiet rfl rfl rfl rfl, .refl _, nofun⟩
      | done latency =>
        have hsource := h.traffic.source_read (cfg.tagOf r.addr)
        have hport : r.port = 0 := h.ports r (mem_of_getElem? hr)
        refine ⟨?_, .read, fun latency' data hdone => ?_⟩
        · exact h.land way _ (h.traffic.read _ _) .read h.ports (readLine_lines cfg s (cfg.tagOf r.addr) way _)
            (fun _ => hsource) (not_not.1 hslot) rfl
        · injection hdone with _ hdata
          rw [← hdata, ← hport]
          simp only [readLine, setLine, update_self]
          exact (h.traffic.read _ _).fresh hr hsource

theorem getLine_tag {tag : BitVec 32} (hget : s.getLine cfg tag = some way) : (s.lines way).tag = tag := by
  simpa using find?_some hget

theorem handleReq (h : Inv cfg s) {req : Nat} (hr : s.reqs[req]? = some r) (status : RefillStatus) :
    Handled cfg s req (s.handleReq cfg req r status) := by
  rw [L0.handleReq]
  split
  · exact h.refill hr status
  · rename_i way hget
    obtain ⟨hinv, htraffic⟩ := h.decidePrefetch way r.addr
    have htag := getLine_tag hget
    have hport : r.port = 0 := h.ports r (mem_of_getElem? hr)
    refine ⟨hinv, htraffic ▸ .refl _, fun latency data hdone => ?_⟩
    injection hdone with _ hdata
    have hsource := h.lines way (by rw [htag]; exact Config.tagOf_ne cfg r.addr)
    rw [htag] at hsource
    have hfresh := h.traffic.fresh hr hsource
    rw [← hdata]
    change (s.decidePrefetch cfg way r.addr).toTraffic.Fresh 0 req _
    rw [htraffic, ← hport]
    exact hfresh

theorem done (h : Handled cfg s req (t, .done latency data)) :
    Inv cfg { t with toTraffic := t.toTraffic.answer 0 req data } := h.1.answer (h.2.2 _ _ rfl)

variable (h : Inv cfg s)
include h

theorem inputReq {addr : BitVec 32} {size : Nat} (hfit : cfg.lineOffset addr + size ≤ cfg.lineBytes)
    (status : RefillStatus) :
    Inv cfg (s.inputReq cfg addr size status) := by
  have hr : (s.toTraffic.arrive cfg 0 addr size).reqs[s.reqs.length]? =
    some ⟨0, addr, size, s.flushed (cfg.tagOf addr)⟩ :=
    getElem?_concat_length
  have hports : ∀ r ∈ (s.toTraffic.arrive cfg 0 addr size).reqs, r.port = 0 := fun r hr => by
    rcases mem_append.1 hr with hr | hr
    · exact h.ports r hr
    · obtain rfl := mem_singleton.1 hr
      rfl
  have harrive : Inv cfg { s with toTraffic := s.toTraffic.arrive cfg 0 addr size } :=
    h.frame (h.traffic.arrive 0 hfit) (.arrive cfg) hports rfl rfl rfl
  rw [L0.inputReq]
  simp only
  split_ifs with hbypass hqueue
  · exact harrive.frame (harrive.traffic.bypass hr status) .bypass
      (by rw [Traffic.bypass_reqs]; exact hports) rfl rfl rfl
  · exact Inv.checkState (harrive.quiet rfl rfl rfl rfl)
  · have hfetch : Inv cfg
        { s with toTraffic := s.toTraffic.arrive cfg 0 addr size, idleAddr := none, idleEvent := none } :=
      harrive.quiet rfl rfl rfl rfl
    have hhandled := hfetch.handleReq hr status
    split
    · rename_i hresult
      rw [hresult] at hhandled
      exact done hhandled
    · rename_i hresult
      rw [hresult] at hhandled
      exact hhandled.1
    · rename_i t hresult
      rw [hresult] at hhandled
      exact hhandled.1.frame (hhandled.1.traffic.deny _) ⟨prefix_rfl, prefix_rfl, rfl⟩ hhandled.1.ports rfl rfl rfl

theorem respQueued {req : Nat} {data : List Byte} (hf : s.Fresh 0 req data) (latency : Nat) :
    Inv cfg (s.respQueued req latency data) := by
  rw [L0.respQueued]
  simp only
  split_ifs
  · exact h.answer hf
  · refine { h with delayed := fun x hx => ?_ }
    rcases mem_append.1 hx with hx | hx
    · exact h.delayed x ((takeWhile_sublist _).subset hx)
    · rcases mem_cons.1 hx with rfl | hx
      · exact hf
      · exact h.delayed x ((dropWhile_sublist _).subset hx)

theorem fsmHandler (ready : Bool) (status : RefillStatus) : Inv cfg (s.fsmHandler cfg ready status) := by
  have hquiet : Inv cfg { s with fsmEvent := none, todo := .checkState :: s.todo } := h.quiet rfl rfl rfl rfl
  rw [L0.fsmHandler]
  simp only
  split
  · rename_i req rest hqueue
    split_ifs with hgo
    · split
      · rename_i r hr
        have hpopped : Inv cfg { s with fsmEvent := none, todo := .checkState :: s.todo, refillPendingReqs := rest } :=
          h.quiet rfl rfl rfl rfl
        have hhandled := hpopped.handleReq hr status
        split
        · rename_i hresult
          rw [hresult] at hhandled
          exact hhandled.1.respQueued (hhandled.2.2 _ _ rfl) _
        · rename_i hresult
          rw [hresult] at hhandled
          exact hhandled.1
        · rename_i hresult
          rw [hresult] at hhandled
          exact hhandled.1.quiet rfl rfl rfl rfl
      · exact hquiet
    · exact hquiet
  · exact hquiet

theorem refillResp (hslot : s.slot = some slot) (hfetched : slot.fetched = true) :
    Inv cfg (s.refillResp cfg slot) := by
  obtain ⟨-, hsource, hreq⟩ := h.slot slot hslot
  have hland : Inv cfg { s.setLine slot.way { s.lines slot.way with tag := slot.tag } with slot := none } :=
    h.land slot.way _ h.traffic (.refl _) h.ports rfl (fun _ => hsource hfetched) rfl rfl
  rw [L0.refillResp]
  simp only
  split
  · exact hland.checkState
  · rename_i req r hcpu
    obtain ⟨req', hreq', hr'⟩ := bind_eq_some_iff.1 hcpu
    obtain ⟨r', hr, he⟩ := map_eq_some_iff.1 hr'
    cases he
    obtain ⟨r₀, hr₀, htag⟩ := hreq req hreq'
    have hsame : r₀ = r := by
      rw [show s.reqs[req]? = some r from hr] at hr₀
      exact (Option.some.inj hr₀).symm
    have hport : r.port = 0 := h.ports r (mem_of_getElem? hr)
    have hsource' := hsource hfetched
    rw [← htag, hsame] at hsource'
    have hfresh := h.traffic.fresh hr hsource'
    rw [hport] at hfresh
    exact (hland.answer hfresh).quiet rfl rfl rfl rfl

theorem delayedRespLoop : Inv cfg s.delayedRespLoop := by
  rw [L0.delayedRespLoop]
  split
  · rename_i due req data rest hresps
    have hfirst := h.delayed (due, req, data) (by rw [hresps]; exact mem_cons_self)
    split_ifs
    · refine ⟨h.traffic.answer hfirst, h.ports, h.lines, h.slot, fun x hx => ?_⟩
      exact h.delayed x (by rw [hresps]; exact mem_cons_of_mem _ hx)
    · exact h.quiet rfl rfl rfl rfl
  · exact h

theorem memory (hslot : s.slot = some slot) :
    Inv cfg { s.readLine cfg slot.tag slot.way with slot := some { slot with fetched := true } } := by
  obtain ⟨htag, -, hreq⟩ := h.slot slot hslot
  refine ⟨h.traffic.read _ _, h.ports, fun w hw => ?_, fun slot' hsl => ?_,
    fun x hx => Traffic.Later.read.fresh (h.delayed x hx)⟩
  all_goals simp only [readLine, setLine] at *
  · by_cases hway : w = slot.way
    · rw [hway, update_self] at hw
      exact (hw htag).elim
    · rw [update_of_ne hway] at hw ⊢
      exact Traffic.Later.read.source (h.lines w hw)
  · cases hsl
    rw [update_self]
    exact ⟨htag, fun _ => h.traffic.source_read slot.tag, hreq⟩

theorem flush (hslot : ∀ slot, s.slot = some slot → slot.fetched = false) : Inv cfg s.flush := by
  refine ⟨h.traffic.flush, h.ports, fun _ hw => (hw rfl).elim, fun slot hsl => ?_, fun x hx => (h.delayed x hx).mono
    prefix_rfl prefix_rfl⟩
  obtain ⟨-, -, hreq⟩ := h.slot slot hsl
  have hnot := hslot slot hsl
  refine ⟨rfl, fun hf => ?_, hreq⟩
  rw [hnot] at hf
  cases hf

theorem flushLine (addr : BitVec 32)
    (hslot : ∀ slot, s.slot = some slot → slot.fetched = true → slot.tag ≠ cfg.tagOf addr) :
      Inv cfg (s.flushLine cfg addr) := by
  refine ⟨h.traffic.flushLine _, h.ports, fun w hw => ?_, fun slot hsl => ?_, fun x hx => (h.delayed x hx).mono
    prefix_rfl prefix_rfl⟩
  · simp only [L0.flushLine] at hw ⊢
    split at hw
    · exact (hw rfl).elim
    · rename_i hne
      rw [if_neg hne]
      exact (h.lines w hw).flushLine hne
  · obtain ⟨htag, hsource, hreq⟩ := h.slot slot hsl
    have hline : (s.lines slot.way).tag ≠ cfg.tagOf addr := htag ▸ (Config.tagOf_ne cfg addr).symm
    simp only [L0.flushLine]
    rw [if_neg hline]
    exact ⟨htag, fun hf => (hsource hf).flushLine (hslot slot hsl hf), hreq⟩

end Inv

/-- No refill that has been read lands behind a flush of its line. -/
def settled (cfg : Config) (s : L0) : L0Event → Bool
  | .flush => s.slot.all fun slot => !slot.fetched
  | .flushLine addr => s.slot.all fun slot => !(slot.fetched && slot.tag = cfg.tagOf addr)
  | _ => true

theorem Inv.step (h : Inv cfg s) {e : L0Event} (hsettled : s.settled cfg e = true) (hstep : s.step cfg e = some t) :
    Inv cfg t := by
  cases e with
  | fetch addr size status =>
    obtain ⟨⟨-, hfit⟩, rfl⟩ := ite_some_none_eq_some.1 hstep
    exact h.inputReq hfit status
  | idle addr =>
    cases hstep
    exact h.quiet rfl rfl rfl rfl
  | bypassResp req =>
    obtain ⟨u, hu, rfl⟩ := map_eq_some_iff.1 hstep
    obtain ⟨hok, hlater⟩ := h.traffic.bypassResp hu
    refine h.frame hok hlater (fun r hr => ?_) rfl rfl rfl
    rw [Traffic.bypassResp_reqs hu] at hr
    exact h.ports r hr
  | memory =>
    obtain ⟨slot, hslot, -, rfl⟩ := step_memory hstep
    exact h.memory hslot
  | refillResp isLast =>
    obtain rfl | ⟨slot, hslot, hfetched, rfl⟩ := step_refillResp hstep
    · exact h
    · exact h.refillResp hslot hfetched
  | refillRetry | enable | enablePrefetching =>
    cases hstep
    exact h.quiet rfl rfl rfl rfl
  | flush =>
    cases hstep
    refine h.flush fun slot hslot => ?_
    rw [settled, hslot] at hsettled
    simpa using hsettled
  | flushLine addr =>
    cases hstep
    refine h.flushLine addr fun slot hslot hfetched => ?_
    rw [settled, hslot] at hsettled
    simpa [hfetched] using hsettled
  | write addr byte =>
    cases hstep
    exact h.frame (h.traffic.write addr byte) ⟨prefix_rfl, prefix_rfl, rfl⟩ h.ports rfl rfl rfl
  | fsm ready status =>
    obtain ⟨-, rfl⟩ := ite_some_none_eq_some.1 hstep
    exact h.fsmHandler ready status
  | prefetch status =>
    obtain ⟨-, rfl⟩ := ite_some_none_eq_some.1 hstep
    have hquiet : Inv cfg { s with prefetchEvent := none } := h.quiet rfl rfl rfl rfl
    exact hquiet.sendPrefetch status
  | missDecide =>
    obtain ⟨-, rfl⟩ := ite_some_none_eq_some.1 hstep
    exact missDecideHandler_keeps (h.quiet rfl rfl rfl rfl) fun way addr h => (h.decidePrefetch way addr).1
  | idleHandler =>
    obtain ⟨-, rfl⟩ := ite_some_none_eq_some.1 hstep
    exact idleHandler_keeps (h.quiet rfl rfl rfl rfl) fun way addr h => (h.decidePrefetch way addr).1
  | delayedResp =>
    obtain ⟨-, rfl⟩ := ite_some_none_eq_some.1 hstep
    exact h.quiet rfl rfl rfl rfl
  | «continue» status =>
    rw [L0.step] at hstep
    split at hstep
    · cases hstep
      exact Inv.checkState (h.quiet rfl rfl rfl rfl)
    · rename_i todo _
      cases hstep
      have hquiet : Inv cfg { s with todo := todo } := h.quiet rfl rfl rfl rfl
      exact hquiet.sendPrefetch status
    · cases hstep
      exact h.quiet rfl rfl rfl rfl
    · cases hstep
      exact Inv.delayedRespLoop (h.quiet rfl rfl rfl rfl)
    · cases hstep
  | tick =>
    obtain ⟨-, ⟨⟩⟩ := ite_none_left_eq_some.1 hstep
    exact h.quiet rfl rfl rfl rfl

theorem inv_initial (mem : BitVec 32 → Byte) : Inv cfg { mem := mem } where
  traffic := ⟨nofun, nofun, fun _ => Nat.le_refl _, nofun, nofun⟩
  ports := nofun
  lines _ h := (h rfl).elim
  slot := nofun
  delayed := nofun

end L0

end GvsocPulp.SnitchIcache
