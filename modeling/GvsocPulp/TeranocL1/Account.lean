import GvsocPulp.TeranocL1.NocItf

/-!
# The account of the core requests

What the requests and the packets are, given where they are: on the queues of the cores, held by the NoC, before the
TCDM, in it, and on their way back. One lemma for each thing that happens to a request.
-/

namespace GvsocPulp.TeranocL1

open Function List

open scoped List

variable {cfg : Config} {h : Heap} {queue held before back queue' held' before' back' : List Nat}
  {access access' : List Access} {k r : Nat} {a : Access} {p : Packet} {c : CoreReq}

def Config.homeOf (cfg : Config) (addr : Nat) : Tile := ⟨(cfg.groupOf addr).1, (cfg.groupOf addr).2, cfg.tileOf addr⟩

/-- A packet of a core request, whichever of the two paths has built it. -/
def Heap.Right (cfg : Config) (h : Heap) (p : Packet) : Prop :=
  ∃ c, h.reqs[p.burst]? = some c ∧ p = toNocReq cfg c.port.tile p.burst c.addr (some c.port.tile.id)

structure Sound (cfg : Config) (h : Heap) (queue held before : List Nat) (access : List Access)
    (back : List Nat) : Prop where
  /-- A core request is on a queue, or has one packet. -/
  reqs : ∀ r, (queue ++ h.packets.map (·.burst)).count r = if r < h.reqs.length then 1 else 0
  packets : ∀ k, (held ++ before ++ access.map (·.packet) ++ back ++ h.freed).count k =
    if k < h.packets.length then 1 else 0
  performed : ∀ k, (held ++ before ++ h.performed.map (·.2.packet)).count k = if k < h.packets.length then 1 else 0
  right : ∀ p ∈ h.packets, h.Right cfg p
  going : ∀ k ∈ held ++ before, ∀ p, h.packets[k]? = some p → h.dests k = (p.destX, p.destY)
  back : ∀ k ∈ back, ∀ p, h.packets[k]? = some p → h.dests k = (p.srcX, p.srcY)
  respPorts : ∀ r c, h.reqs[r]? = some c → (∀ a ∈ access, a.req ≠ r) → h.respPorts r = .core c.port
  access : ∀ a ∈ access, (∃ p, h.packets[a.packet]? = some p ∧ p.burst = a.req) ∧
    ∃ c, h.reqs[a.req]? = some c ∧ a.port = .core c.port
  accesses : ∀ x ∈ h.performed, ∃ p c, h.packets[x.2.packet]? = some p ∧ p.burst = x.2.req ∧ h.reqs[x.2.req]? = some c ∧
    x.1 = cfg.homeOf c.addr
  denied : ∀ r ∈ h.denied, r < h.reqs.length
  granted : (h.granted.map (·.2)).Nodup
  grants : ∀ x ∈ h.granted, x.2 ∈ h.denied ∧ x.2 ∉ queue ∧ (∀ k ∈ held, ∀ p, h.packets[k]? = some p → p.burst ≠ x.2) ∧
    ∃ c, h.reqs[x.2]? = some c ∧ x.1 = .core c.port
  owed : ∀ r ∈ h.denied, r ∈ queue ∨ r ∈ h.granted.map (·.2) ∨ ∃ k ∈ held, ∃ p, h.packets[k]? = some p ∧ p.burst = r
  held : ∀ k ∈ held, ∀ p, h.packets[k]? = some p → p.burst ∈ h.denied
  responded : ∀ x ∈ h.responded, ∃ p c, h.packets[x.packet]? = some p ∧ p.burst = x.req ∧ h.reqs[x.req]? = some c ∧
    x.tile = c.port.tile ∧ x.port = .core c.port
  freed : h.freed = h.responded.map (·.packet)

namespace Sound

section

variable (h₁ : Sound cfg h queue held before access back)
include h₁

theorem perm (hq : queue' ~ queue) (hh : held' ~ held) (hb : before' ~ before)
    (ha : access' ~ access) (hk : back' ~ back) : Sound cfg h queue' held' before' access' back' where
  reqs r := by
    rw [count_append, hq.count_eq, ← count_append]
    exact h₁.reqs r
  packets k := by
    simp only [count_append, hh.count_eq, hb.count_eq, (ha.map _).count_eq, hk.count_eq]
    simpa only [count_append] using h₁.packets k
  performed k := by
    simp only [count_append, hh.count_eq, hb.count_eq]
    simpa only [count_append] using h₁.performed k
  right := h₁.right
  going k hk' := h₁.going k ((hh.append hb).mem_iff.1 hk')
  back k hk' := h₁.back k (hk.mem_iff.1 hk')
  respPorts r c hr hne := h₁.respPorts r c hr fun a hmem => hne a (ha.mem_iff.2 hmem)
  access a hmem := h₁.access a (ha.mem_iff.1 hmem)
  accesses := h₁.accesses
  denied := h₁.denied
  granted := h₁.granted
  grants x hx := by
    obtain ⟨hden, hnot, hheld, hport⟩ := h₁.grants x hx
    exact ⟨hden, fun hmem => hnot (hq.mem_iff.1 hmem), fun k hk' => hheld k (hh.mem_iff.1 hk'), hport⟩
  owed r hr := (h₁.owed r hr).imp hq.mem_iff.2 (Or.imp_right fun ⟨k, hk', hp⟩ => ⟨k, hh.mem_iff.2 hk', hp⟩)
  held k hk' := h₁.held k (hh.mem_iff.1 hk')
  responded := h₁.responded
  freed := h₁.freed

theorem getElem?_right (hk : h.packets[k]? = some p) : h.Right cfg p :=
  h₁.right p (mem_of_getElem? hk)

theorem bursts_nodup : (h.packets.map (·.burst)).Nodup :=
  nodup_iff_count_le_one.2 fun r => by
    have hr := h₁.reqs r
    rw [count_append] at hr
    split_ifs at hr <;> omega

theorem packet_unique {k' : Nat} {p' : Packet} (hk : h.packets[k]? = some p)
    (hk' : h.packets[k']? = some p') (hburst : p.burst = p'.burst) : k = k' := by
  have hlt := (List.getElem?_eq_some_iff.1 hk).1
  refine (getElem?_inj (by rwa [length_map]) h₁.bursts_nodup).1 ?_
  rw [getElem?_map, getElem?_map, hk, hk', Option.map_some, Option.map_some, hburst]

section

variable (hk : k ∈ held ++ before ++ access.map (·.packet) ++ back ++ h.freed)
include hk

theorem lt_of_mem : k < h.packets.length := by
  have hpos := count_pos_iff.2 hk
  rw [h₁.packets k] at hpos
  by_contra hlt
  rw [if_neg hlt] at hpos
  cases hpos

theorem exists_packet : ∃ p, h.packets[k]? = some p :=
  ⟨_, getElem?_eq_getElem (h₁.lt_of_mem hk)⟩

end

/-- The requests in the TCDM are all different, and none of them is the request of a packet elsewhere. -/
theorem ne_of_access (ha : a ∈ access) (hk : h.packets[k]? = some p) (hnot : k ∉ access.map (·.packet)) :
    p.burst ≠ a.req := by
  intro hburst
  obtain ⟨⟨p', hp', hreq⟩, -⟩ := h₁.access a ha
  have he := h₁.packet_unique hk hp' (hburst.trans hreq.symm)
  exact hnot (he ▸ mem_map_of_mem ha)

/-! ## What happens to a request -/

theorem arrive (c : CoreReq) :
    Sound cfg { h with reqs := h.reqs ++ [c], respPorts := update h.respPorts h.reqs.length (.core c.port) }
      (h.reqs.length :: queue) held before access back := by
  have hkeep : ∀ {r c'}, h.reqs[r]? = some c' → (h.reqs ++ [c])[r]? = some c' := fun hr => by
    rw [getElem?_append_left (List.getElem?_eq_some_iff.1 hr).1]
    exact hr
  refine ⟨fun r => ?_, h₁.packets, h₁.performed, fun p hp => ?_, h₁.going, h₁.back, fun r c' hr hne => ?_,
    fun a ha => ?_, fun x hx => ?_, fun r hr => ?_, h₁.granted, fun x hx => ?_, fun r hr => ?_, h₁.held,
    fun x hx => ?_, h₁.freed⟩
  · have hr := h₁.reqs r
    simp only [cons_append, count_cons, beq_iff_eq, length_append, length_singleton] at hr ⊢
    rw [hr]
    split_ifs <;> omega
  · obtain ⟨c', hc, he⟩ := h₁.right p hp
    exact ⟨c', hkeep hc, he⟩
  · change update _ _ _ r = _
    by_cases hlt : r < h.reqs.length
    · rw [update_of_ne hlt.ne]
      rw [getElem?_append_left hlt] at hr
      exact h₁.respPorts r c' hr hne
    · have hlen := (List.getElem?_eq_some_iff.1 hr).1
      rw [length_append, length_singleton] at hlen
      have he : r = h.reqs.length := by omega
      subst he
      rw [getElem?_concat_length] at hr
      cases hr
      rw [update_self]
  · obtain ⟨hp, c', hc, hport⟩ := h₁.access a ha
    exact ⟨hp, c', hkeep hc, hport⟩
  · obtain ⟨p, c', hp, hb, hc, ht⟩ := h₁.accesses x hx
    exact ⟨p, c', hp, hb, hkeep hc, ht⟩
  · rw [length_append]
    exact Nat.lt_add_right _ (h₁.denied r hr)
  · obtain ⟨hden, hnot, hheld, c', hc, hport⟩ := h₁.grants x hx
    refine ⟨hden, fun hmem => ?_, hheld, c', hkeep hc, hport⟩
    rcases mem_cons.1 hmem with he | hmem
    · exact (he ▸ h₁.denied x.2 hden).ne rfl
    · exact hnot hmem
  · exact (h₁.owed r hr).imp_left (mem_cons_of_mem _)
  · obtain ⟨p, c', hp, hb, hc, ht⟩ := h₁.responded x hx
    exact ⟨p, c', hp, hb, hkeep hc, ht⟩

theorem deny (hr : r ∈ queue) :
    Sound cfg { h with denied := h.denied ++ [r] } queue held before access back := by
  have hlt : r < h.reqs.length := by
    have hcount := h₁.reqs r
    have hpos := count_pos_iff.2 hr
    rw [count_append] at hcount
    by_contra hlt
    rw [if_neg hlt] at hcount
    omega
  refine { h₁ with denied := fun x hx => ?_, grants := fun x hx => ?_, owed := fun x hx => ?_, held :=
    fun k hk p hp => ?_ }
  · rcases mem_append.1 hx with hx | hx
    · exact h₁.denied x hx
    · exact mem_singleton.1 hx ▸ hlt
  · obtain ⟨hden, hrest⟩ := h₁.grants x hx
    exact ⟨mem_append_left _ hden, hrest⟩
  · rcases mem_append.1 hx with hx | hx
    · exact h₁.owed x hx
    · exact .inl (mem_singleton.1 hx ▸ hr)
  · exact mem_append_left _ (h₁.held k hk p hp)

end

theorem getElem?_concat {α : Type} {xs : List α} {x : α} {k : Nat} {y : α} (hk : xs[k]? = some y) :
    (xs ++ [x])[k]? = some y := by
  rw [getElem?_append_left (List.getElem?_eq_some_iff.1 hk).1]
  exact hk

theorem send (h₁ : Sound cfg h (r :: queue) held before access back) (hc : h.reqs[r]? = some c) (hnew : r ∉ h.denied) :
    Sound cfg { h with
      packets := h.packets ++ [toNocReq cfg c.port.tile r c.addr (some c.port.tile.id)]
      dests := update h.dests h.packets.length (cfg.groupOf c.addr) }
      queue held (h.packets.length :: before) access back := by
  have hlt : ∀ {k}, k ∈ held ++ before ++ access.map (·.packet) ++ back ++ h.freed → k ≠ h.packets.length :=
    fun hk => (h₁.lt_of_mem hk).ne
  have hold : ∀ {k p}, k ∈ held ++ before ++ access.map (·.packet) ++ back ++ h.freed →
      (h.packets ++ [toNocReq cfg c.port.tile r c.addr (some c.port.tile.id)])[k]? = some p → h.packets[k]? = some p :=
    fun hk hp => by rwa [getElem?_append_left (h₁.lt_of_mem hk)] at hp
  refine ⟨fun x => ?_, fun k => ?_, fun k => ?_, fun p hp => ?_, fun k hk p hp => ?_, fun k hk p hp => ?_, h₁.respPorts,
    fun a ha => ?_, fun x hx => ?_, h₁.denied, h₁.granted, fun x hx => ?_, fun x hx => ?_, fun k hk p hp => ?_,
      fun x hx => ?_,
    h₁.freed⟩
  · have hx := h₁.reqs x
    simp only [map_append, map_cons, map_nil, toNocReq, count_append, count_cons, count_nil]
      at hx ⊢
    omega
  · have hk := h₁.packets k
    simp only [count_append, count_cons, beq_iff_eq, length_append, length_singleton] at hk ⊢
    split_ifs at hk ⊢ <;> omega
  · have hk := h₁.performed k
    simp only [count_append, count_cons, beq_iff_eq, length_append, length_singleton] at hk ⊢
    split_ifs at hk ⊢ <;> omega
  · rcases mem_append.1 hp with hp | hp
    · exact h₁.right p hp
    · obtain rfl := mem_singleton.1 hp
      exact ⟨c, hc, rfl⟩
  · change update _ _ _ k = _
    by_cases he : k = h.packets.length
    · subst he
      rw [getElem?_concat_length] at hp
      cases hp
      rw [update_self]
      rfl
    · have hmem : k ∈ held ++ before := by
        rcases mem_append.1 hk with hk | hk
        · exact mem_append_left _ hk
        · exact mem_append_right _ ((mem_cons.1 hk).resolve_left he)
      rw [update_of_ne he]
      exact h₁.going k hmem p (hold (by simp only [mem_append] at hmem ⊢; tauto) hp)
  · have hmem : k ∈ held ++ before ++ access.map (·.packet) ++ back ++ h.freed := by
      simp only [mem_append]
      tauto
    change update _ _ _ k = _
    rw [update_of_ne (hlt hmem)]
    exact h₁.back k hk p (hold hmem hp)
  · obtain ⟨⟨p, hp, hb⟩, hport⟩ := h₁.access a ha
    exact ⟨⟨p, getElem?_concat hp, hb⟩, hport⟩
  · obtain ⟨p, c', hp, hrest⟩ := h₁.accesses x hx
    exact ⟨p, c', getElem?_concat hp, hrest⟩
  · obtain ⟨hden, hnot, hheld, hport⟩ := h₁.grants x hx
    refine ⟨hden, fun hmem => hnot (mem_cons_of_mem _ hmem), fun k hk p hp => hheld k hk p (hold ?_ hp), hport⟩
    simp only [mem_append]
    tauto
  · rcases h₁.owed x hx with hmem | hgranted | ⟨k, hk, p, hp, hb⟩
    · exact .inl ((mem_cons.1 hmem).resolve_left fun he => hnew (he ▸ hx))
    · exact .inr (.inl hgranted)
    · exact .inr (.inr ⟨k, hk, p, getElem?_concat hp, hb⟩)
  · refine h₁.held k hk p (hold ?_ hp)
    simp only [mem_append]
    tauto
  · obtain ⟨p, c', hp, hrest⟩ := h₁.responded x hx
    exact ⟨p, c', getElem?_concat hp, hrest⟩

theorem hold (h₁ : Sound cfg h queue held (k :: before) access back) (hp : h.packets[k]? = some p)
    (hnew : p.burst ∉ h.granted.map (·.2)) :
    Sound cfg { h with denied := h.denied ++ [p.burst] } queue (k :: held) before access back := by
  obtain ⟨c, hc, -⟩ := h₁.getElem?_right hp
  refine { h₁ with
    packets := fun x => ?_, performed := fun x => ?_, going := fun x hx => h₁.going x ?_, denied := fun x hx => ?_
    grants := fun x hx => ?_, owed := fun x hx => ?_, held := fun x hx p' hp' => ?_ }
  · have hx := h₁.packets x
    simp only [count_append, count_cons] at hx ⊢
    omega
  · have hx := h₁.performed x
    simp only [count_append, count_cons] at hx ⊢
    omega
  · simp only [mem_append, mem_cons] at hx ⊢
    tauto
  · rcases mem_append.1 hx with hx | hx
    · exact h₁.denied x hx
    · exact mem_singleton.1 hx ▸ (List.getElem?_eq_some_iff.1 hc).1
  · obtain ⟨hden, hnot, hheld, hport⟩ := h₁.grants x hx
    refine ⟨mem_append_left _ hden, hnot, fun k' hk' p' hp' => ?_, hport⟩
    rcases mem_cons.1 hk' with rfl | hk'
    · rw [hp] at hp'
      cases hp'
      exact fun he => hnew (he ▸ mem_map_of_mem hx)
    · exact hheld k' hk' p' hp'
  · rcases mem_append.1 hx with hx | hx
    · exact (h₁.owed x hx).imp_right (Or.imp_right (Exists.imp fun _ => And.imp_left (mem_cons_of_mem _)))
    · exact .inr (.inr ⟨k, mem_cons_self, p, hp, (mem_singleton.1 hx).symm⟩)
  · rcases mem_cons.1 hx with rfl | hx
    · rw [hp] at hp'
      cases hp'
      exact mem_append_right _ (mem_singleton.2 rfl)
    · exact mem_append_left _ (h₁.held x hx p' hp')

theorem not_mem_access (h₁ : Sound cfg h queue held before access back) (hk : k ∈ held ++ before) :
    k ∉ access.map (·.packet) := by
  intro hmem
  have hcount := h₁.packets k
  have hpos := count_pos_iff.2 hk
  have hpos' := count_pos_iff.2 hmem
  simp only [count_append] at hcount hpos
  split_ifs at hcount <;> omega

/-- While its packet is not in the TCDM, a request is answered through the port it came to. -/
theorem respPort_eq (h₁ : Sound cfg h queue held before access back) (hp : h.packets[k]? = some p)
    (hc : h.reqs[p.burst]? = some c) (hnot : k ∉ access.map (·.packet)) : h.respPorts p.burst = .core c.port :=
  h₁.respPorts p.burst c hc fun _ ha he => h₁.ne_of_access ha hp hnot he.symm

theorem grant (h₁ : Sound cfg h queue (k :: held) before access back) (hp : h.packets[k]? = some p) :
    Sound cfg { h with granted := h.granted ++ [(h.respPorts p.burst, p.burst)] } queue held
      (k :: before) access back := by
  obtain ⟨c, hc, -⟩ := h₁.getElem?_right hp
  have hmem : p ∈ h.packets := mem_of_getElem? hp
  have hburst : p.burst ∉ queue := fun hq => by
    have hcount := h₁.reqs p.burst
    have hpos := count_pos_iff.2 hq
    have hpos' := count_pos_iff.2 (mem_map_of_mem (f := (·.burst)) hmem)
    rw [count_append] at hcount
    split_ifs at hcount <;> omega
  have hheld : k ∉ held := fun hk => by
    have hcount := h₁.packets k
    have hpos := count_pos_iff.2 hk
    simp only [count_append, count_cons_self] at hcount
    split_ifs at hcount <;> omega
  refine { h₁ with
    packets := fun x => ?_, performed := fun x => ?_, going := fun x hx => h₁.going x ?_, granted := ?_
    grants := fun x hx => ?_, owed := fun x hx => ?_, held := fun x hx => h₁.held x (mem_cons_of_mem _ hx) }
  · have hx := h₁.packets x
    simp only [count_append, count_cons] at hx ⊢
    omega
  · have hx := h₁.performed x
    simp only [count_append, count_cons] at hx ⊢
    omega
  · simp only [mem_append, mem_cons] at hx ⊢
    tauto
  · rw [map_append]
    refine h₁.granted.append (nodup_singleton _) fun x hx he => ?_
    obtain ⟨y, hy, rfl⟩ := List.mem_map.1 hx
    exact (h₁.grants y hy).2.2.1 k mem_cons_self p hp (mem_singleton.1 he).symm
  · rcases mem_append.1 hx with hx | hx
    · obtain ⟨hden, hnot, hother, hport⟩ := h₁.grants x hx
      exact ⟨hden, hnot, fun k' hk' => hother k' (mem_cons_of_mem _ hk'), hport⟩
    · obtain rfl := mem_singleton.1 hx
      refine ⟨h₁.held k mem_cons_self p hp, hburst, fun k' hk' p' hp' he => ?_, c, hc, ?_⟩
      · exact hheld (h₁.packet_unique hp' hp he ▸ hk')
      · exact h₁.respPort_eq hp hc (h₁.not_mem_access (mem_append_left _ mem_cons_self))
  · rcases h₁.owed x hx with hq | hgranted | ⟨k', hk', p', hp', hb⟩
    · exact .inl hq
    · exact .inr (.inl (by rw [map_append]; exact mem_append_left _ hgranted))
    · rcases mem_cons.1 hk' with rfl | hk'
      · rw [hp] at hp'
        cases hp'
        exact .inr (.inl (by rw [map_append]; exact mem_append_right _ (mem_singleton.2 hb.symm)))
      · exact .inr (.inr ⟨k', hk', p', hp', hb⟩)

theorem perform (h₁ : Sound cfg h queue held (k :: before) access back) (hp : h.packets[k]? = some p)
    (hc : h.reqs[p.burst]? = some c) :
    Sound cfg { h with performed := h.performed ++ [(cfg.homeOf c.addr, Access.mk p.burst k (h.respPorts p.burst))] }
      queue held
      before (Access.mk p.burst k (h.respPorts p.burst) :: access) back := by
  have hport := h₁.respPort_eq hp hc (h₁.not_mem_access (mem_append_right _ mem_cons_self))
  refine { h₁ with packets := fun x => ?_, performed := fun x => ?_, going := fun x hx => h₁.going x ?_, respPorts :=
    fun r c' hr hne => ?_, access := fun a ha => ?_, accesses := fun x hx => ?_ }
  · have hx := h₁.packets x
    simp only [map_cons, count_append, count_cons] at hx ⊢
    omega
  · have hx := h₁.performed x
    simp only [map_append, map_cons, map_nil, count_append, count_cons, count_nil] at hx ⊢
    omega
  · simp only [mem_append, mem_cons] at hx ⊢
    tauto
  · exact h₁.respPorts r c' hr fun a ha => hne a (mem_cons_of_mem _ ha)
  · rcases mem_cons.1 ha with rfl | ha
    · exact ⟨⟨p, hp, rfl⟩, c, hc, hport⟩
    · exact h₁.access a ha
  · rcases mem_append.1 hx with hx | hx
    · exact h₁.accesses x hx
    · obtain rfl := mem_singleton.1 hx
      exact ⟨p, c, hp, rfl, hc, rfl⟩

theorem retarget (h₁ : Sound cfg h queue held before access back) (ha : a ∈ access) (port : RespPort) :
    Sound cfg { h with respPorts := update h.respPorts a.req port } queue held before access back := by
  refine { h₁ with respPorts := fun r c hr hne => ?_ }
  change update _ _ _ r = _
  rw [update_of_ne (hne a ha).symm]
  exact h₁.respPorts r c hr hne

theorem turn (h₁ : Sound cfg h queue held before (a :: access) back) (hp : h.packets[a.packet]? = some p) :
    Sound cfg { h with
      respPorts := update h.respPorts a.req a.port
      dests := update h.dests a.packet (p.srcX, p.srcY) } queue held before access (a.packet :: back) := by
  obtain ⟨⟨p', hp', hb⟩, c, hc, hport⟩ := h₁.access a mem_cons_self
  rw [hp] at hp'
  cases hp'
  have hcount := h₁.packets a.packet
  simp only [map_cons, count_append, count_cons_self] at hcount
  have hone : (if a.packet < h.packets.length then 1 else 0) ≤ 1 := by split_ifs <;> omega
  have hother : ∀ {x}, x ∈ held ++ before ++ back → x ≠ a.packet := fun hx he => by
    rw [he] at hx
    have hpos := count_pos_iff.2 hx
    simp only [count_append] at hpos
    omega
  have haccess : ∀ b ∈ access, b.packet ≠ a.packet := fun b hb' he => by
    have hpos := count_pos_iff.2 (mem_map_of_mem (f := (·.packet)) hb')
    rw [he] at hpos
    omega
  refine { h₁ with packets := fun x => ?_, going := fun x hx p' hp' => ?_, back := fun x hx p' hp' => ?_, respPorts :=
    fun r c' hr hne => ?_, access := fun b hb' => h₁.access b (mem_cons_of_mem _ hb') }
  · have hx := h₁.packets x
    simp only [map_cons, count_append, count_cons] at hx ⊢
    omega
  · change update _ _ _ x = _
    rw [update_of_ne (hother (mem_append_left _ hx))]
    exact h₁.going x hx p' hp'
  · change update _ _ _ x = _
    by_cases he : x = a.packet
    · rw [he] at hp' ⊢
      rw [hp] at hp'
      cases hp'
      rw [update_self]
    · rw [update_of_ne he]
      exact h₁.back x ((mem_cons.1 hx).resolve_left he) p' hp'
  · change update _ _ _ r = _
    by_cases he : r = a.req
    · rw [he] at hr ⊢
      rw [hc] at hr
      cases hr
      rw [update_self, hport]
    · rw [update_of_ne he]
      refine h₁.respPorts r c' hr fun b hb' => ?_
      rcases mem_cons.1 hb' with rfl | hb'
      · exact fun he' => he he'.symm
      · exact hne b hb'

/-- The response comes back to the interface of its tile, and the packet is deleted. -/
theorem answer (h₁ : Sound cfg h queue held before access (k :: back)) (hp : h.packets[k]? = some p)
    (hc : h.reqs[p.burst]? = some c) :
    Sound cfg { h with
      responded := h.responded ++ [Response.mk c.port.tile (h.respPorts p.burst) p.burst k]
      freed := h.freed ++ [k] } queue held before access back := by
  have hnot : k ∉ access.map (·.packet) := fun hmem => by
    have hcount := h₁.packets k
    have hpos := count_pos_iff.2 hmem
    simp only [count_append, count_cons_self] at hcount
    split_ifs at hcount <;> omega
  refine { h₁ with packets := fun x => ?_, back := fun x hx => h₁.back x (mem_cons_of_mem _ hx), responded :=
    fun x hx => ?_, freed := ?_ }
  · have hx := h₁.packets x
    simp only [count_append, count_cons, count_nil] at hx ⊢
    omega
  · rcases mem_append.1 hx with hx | hx
    · exact h₁.responded x hx
    · obtain rfl := mem_singleton.1 hx
      exact ⟨p, c, hp, rfl, hc, rfl, h₁.respPort_eq hp hc hnot⟩
  · rw [map_append, ← h₁.freed]
    rfl

end Sound

end GvsocPulp.TeranocL1
