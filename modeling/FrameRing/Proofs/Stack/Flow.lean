import FrameRing.Proofs.SourceRing.Device
import FrameRing.Proofs.Stack.Delivery

/-! # Frames in flight

`sent` lists the payloads that the device put into buffers and `posted` the buffers armed so far.
The device fills them in the order in which they were armed, so the payload of the `k`-th frame is
in the `k`-th buffer from the time it is sent until the buffer leaves the ring. -/

namespace FrameRing

def armedAs (n : Nat) (posted : List DmaBuffer) : List (Nat × Nat) :=
  posted.mapIdx fun k b => (b.allocation.addr, k % n)

@[simp] theorem length_armedAs (n : Nat) (posted : List DmaBuffer) :
    (armedAs n posted).length = posted.length :=
  List.length_mapIdx

theorem getElem?_armedAs (n k : Nat) (posted : List DmaBuffer) :
    (armedAs n posted)[k]? = posted[k]?.map fun b => (b.allocation.addr, k % n) :=
  List.getElem?_mapIdx

theorem armedAs_concat (n : Nat) (posted : List DmaBuffer) (b : DmaBuffer) :
    armedAs n (posted ++ [b]) =
      armedAs n posted ++ [(b.allocation.addr, posted.length % n)] :=
  List.mapIdx_concat

/-- A ring, the device behind it and the world that they live in. `a` is the ring memory, the
buffers from the `first` posted on are not given away yet, and `live` is what everybody else
holds. -/
structure Flow (fw : Firmware) (a : Allocation) (size : Nat) (sent : List (List UInt8))
    (live : List Allocation) (first : Nat) (r : SourceRing) (w : World) (t : Tally)
    (posted : List DmaBuffer) : Prop where
  wired : fw = Firmware.behind r fw.bufferSize
  capacity : fw.bufferSize ≤ size
  holds : r.Holds w.window t (armedAs r.numEntries posted)
  inside : r.layout.Inside a
  small : r.numEntries ≤ 1 <<< 21
  tail : SourceRing.PointsTo r.flags w.window r.layout.tailAddr (sent.length % r.numEntries)
  accepted_le : t.accepted ≤ sent.length
  sent_le : sent.length ≤ t.armed
  first_le : first ≤ t.reaped
  owns : w.Owns (a :: ((posted.drop first).map DmaBuffer.allocation ++ live))
  sized : ∀ k b, first ≤ k → posted[k]? = some b → b.size = size ∧ size ≤ b.allocation.len
  fits : ∀ payload ∈ sent, Fits size payload
  filled : ∀ k b payload, first ≤ k → posted[k]? = some b → sent[k]? = some payload →
    w.window.Shows b.allocation.addr (frameBytes payload)

namespace Flow

variable {fw : Firmware} {a : Allocation} {size : Nat} {sent : List (List UInt8)}
  {live : List Allocation} {first : Nat} {r : SourceRing} {w : World} {t : Tally}
  {posted : List DmaBuffer}

theorem length_posted (h : Flow fw a size sent live first r w t posted) :
    posted.length = t.armed := by
  rw [← h.holds.length, length_armedAs]

theorem mem_owned {k : Nat} {b : DmaBuffer}
    (hk : first ≤ k) (hb : posted[k]? = some b) :
    b.allocation ∈ (posted.drop first).map DmaBuffer.allocation ++ live := by
  refine List.mem_append_left _ (List.mem_map_of_mem (List.mem_of_getElem? (i := k - first) ?_))
  rw [List.getElem?_drop, Nat.add_sub_of_le hk, hb]

theorem apart (h : Flow fw a size sent live first r w t posted) {k : Nat} {b : DmaBuffer}
    (hk : first ≤ k) (hb : posted[k]? = some b) :
    a.addr + a.len ≤ b.allocation.addr ∨ b.allocation.addr + b.allocation.len ≤ a.addr :=
  h.owns.apart_of_cons (mem_owned hk hb)

theorem frame_le (h : Flow fw a size sent live first r w t posted) {k : Nat} {b : DmaBuffer}
    {payload : List UInt8} (hk : first ≤ k) (hb : posted[k]? = some b)
    (hp : sent[k]? = some payload) : (frameBytes payload).length ≤ b.allocation.len := by
  have hroom := (h.fits payload (List.mem_of_getElem? hp)).room
  have hlen := (h.sized k b hk hb).2
  rw [length_frameBytes]
  omega

theorem filled_write (h : Flow fw a size sent live first r w t posted) {addr : Nat}
    {src : List UInt8} (hlow : a.addr ≤ addr) (hhigh : addr + src.length ≤ a.addr + a.len)
    {k : Nat} {b : DmaBuffer} {payload : List UInt8} (hk : first ≤ k)
    (hb : posted[k]? = some b) (hp : sent[k]? = some payload) :
    (w.window.write addr src).2.Shows b.allocation.addr (frameBytes payload) := by
  have hap := h.apart hk hb
  have hle := h.frame_le hk hb hp
  exact (h.filled k b payload hk hb hp).write (by omega)

theorem buffers_apart (h : Flow fw a size sent live first r w t posted) {k l : Nat}
    {b c : DmaBuffer} (hk : first ≤ k) (hkl : k < l) (hb : posted[k]? = some b)
    (hc : posted[l]? = some c) :
    b.allocation.addr + b.allocation.len ≤ c.allocation.addr ∨
      c.allocation.addr + c.allocation.len ≤ b.allocation.addr := by
  have hpair := (List.pairwise_append.mp (List.pairwise_cons.mp h.owns.apart).2).1
  have hat {i : Nat} {d : DmaBuffer} (hi : first ≤ i) (hd : posted[i]? = some d) :
      ((posted.drop first).map DmaBuffer.allocation)[i - first]? = some d.allocation := by
    rw [List.getElem?_map, List.getElem?_drop, Nat.add_sub_of_le hi, hd]
    rfl
  obtain ⟨hlk, hbk⟩ := List.getElem?_eq_some_iff.mp (hat hk hb)
  obtain ⟨hll, hcl⟩ := List.getElem?_eq_some_iff.mp (hat (by omega) hc)
  have hno := List.pairwise_iff_getElem.mp hpair _ _ hlk hll (by omega)
  rw [hbk, hcl, Slab.Overlaps] at hno
  omega

theorem accessBegin (h : Flow fw a size sent live first r w t posted) (hs : r.inAccess = false) :
    let r' := { r with cachedTail := sent.length % r.numEntries, inAccess := true }
    r.accessBegin w.host.memory = (.ok (), r') ∧
      Flow fw a size sent live first r' w { t with accepted := sent.length } posted := by
  have hw := h.inside.words
  have hsmall := h.small
  obtain ⟨hopen, htracks⟩ := h.holds.accessBegin_healthy hs h.owns.faults
    ((h.owns.covers List.mem_cons_self).sub (by omega) (by omega)) h.tail (by omega)
    h.accepted_le h.sent_le
  exact ⟨hopen,
    { h with
      holds := ⟨htracks, h.holds.length, h.holds.shown⟩
      accepted_le := Nat.le_refl _ }⟩

theorem accessEnd (h : Flow fw a size sent live first r w t posted) (hs : r.inAccess = true) :
    let r' := { r with inAccess := false }
    ∃ window, r.accessEnd w.host = (r', (w.setWindow window).host) ∧
      Flow fw a size sent live first r' (w.setWindow window) t posted ∧
      SourceRing.PointsTo r.flags window r.layout.headAddr (t.armed % r.numEntries) := by
  have hw := h.inside.words
  have hlen := SourceRing.length_pointerBytes r.flags r.head
  have hcov : w.window.Covers r.layout.headAddr (SourceRing.pointerBytes r.flags r.head).length :=
    (h.owns.covers List.mem_cons_self).sub (by omega) (by omega)
  refine ⟨_, SourceRing.accessEnd_healthy _ hs h.owns.faults (hlen ▸ hcov), ?_, ?_⟩
  · exact
      { h with
        holds := ⟨{ h.holds.toTracks with }, h.holds.length,
          (h.holds.write h.inside (.inr (Nat.le_refl _))).shown⟩
        tail := h.tail.write (.inr (by omega))
        owns := h.owns.setWindow Window.base_write Window.size_write
        filled := fun k b payload => h.filled_write (by omega) (by omega) }
  · rw [← h.holds.head]
    exact Window.shows_write hcov

theorem share (h : Flow fw a size sent live first r w t posted) {live' : List Allocation}
    {w' : World} (hw : w'.window = w.window)
    (ho : w'.Owns (a :: ((posted.drop first).map DmaBuffer.allocation ++ live'))) :
    Flow fw a size sent live' first r w' t posted :=
  { h with
    holds := hw ▸ h.holds
    tail := hw ▸ h.tail
    owns := ho
    filled := hw ▸ h.filled }

theorem record (h : Flow fw a size sent live first r w t posted) (event : LogEvent) :
    Flow fw a size sent live first r (w.record event) t posted :=
  h.share rfl (h.owns.record event)

theorem acquire (h : Flow fw a size sent live first r w t posted) {b : DmaBuffer} {w' : World}
    (ha : World.acquire size w = (.ok b, w')) :
    Flow fw a size sent (b.allocation :: live) first r w' t posted ∧
      (b.size = size ∧ size ≤ b.allocation.len) ∧
      w'.rest.delivered = w.rest.delivered := by
  obtain ⟨howns, ⟨slab, rfl⟩, hb⟩ := h.owns.acquire ha
  refine ⟨h.share rfl (howns.perm ?_), hb, rfl⟩
  exact (List.Perm.swap _ _ _).trans (List.perm_middle.symm.cons a)

theorem setEntry {b : DmaBuffer} (h : Flow fw a size sent (b.allocation :: live) first r w t posted)
    {res : Reservation} (hs : r.inAccess = true) (hcur : r.Current res)
    (hroom : r.head ≠ r.reapHeadAfter res) (hb : b.size = size ∧ size ≤ b.allocation.len) :
    let r' := { r with reapHead := r.reapHeadAfter res, head := r.next r.head }
    ∃ window,
      r.setEntry w.host.memory res b.allocation.addr (posted.length % r.numEntries) =
        (.ok (), r', (w.setWindow window).host.memory) ∧
      Flow fw a size sent live first r' (w.setWindow window) (t.arm res) (posted ++ [b]) := by
  have hw := h.inside.words
  have hle : first ≤ posted.length := by
    have hf := h.first_le
    have hr := h.holds.reaped_le
    have ha := h.holds.accepted_le
    rw [h.length_posted]
    omega
  have hlt : posted.length % r.numEntries < r.numEntries := h.holds.position_lt _
  have hsmall := h.small
  have haddr := h.owns.addr_lt (List.mem_cons_of_mem a (List.mem_append_right _ List.mem_cons_self))
  have he : ∃ entry, RingEntry.ofFields b.allocation.addr (posted.length % r.numEntries) r.rbm =
      .ok entry := by
    rw [RingEntry.ofFields, dif_pos haddr, dif_pos (by omega)]
    exact ⟨_, rfl⟩
  obtain ⟨entry, he⟩ := he
  obtain ⟨hset, hholds⟩ := h.holds.setEntry_healthy h.inside hs h.owns.faults
    (h.owns.covers List.mem_cons_self) hcur hroom he
  have hin := h.inside.entry (h.holds.head ▸ h.holds.position_lt t.armed)
  have hsize : RingEntry.size = 8 := rfl
  refine ⟨_, hset, ?_⟩
  refine
    { wired := h.wired
      capacity := h.capacity
      holds := armedAs_concat r.numEntries posted b ▸ hholds
      inside := h.inside
      small := h.small
      tail := h.tail.write (.inr ?_)
      accepted_le := h.accepted_le
      sent_le := Nat.le_succ_of_le h.sent_le
      first_le := Nat.le_trans h.first_le (Nat.le_add_right _ _)
      owns := World.Owns.setWindow ?_ Window.base_write Window.size_write
      sized := ?_
      fits := h.fits
      filled := ?_ }
  · rw [RingEntry.length_toBytes]
    omega
  · rw [List.drop_append_of_le_length hle, List.map_append, List.append_assoc]
    exact h.owns
  · intro k c hk hc
    rcases getElem?_concat_cases hc with hold | ⟨-, rfl⟩
    · exact h.sized k c hk hold
    · exact hb
  · intro k c payload hk hc hp
    rcases getElem?_concat_cases hc with hold | ⟨hnew, -⟩
    · refine h.filled_write hin.1 ?_ hk hold hp
      rw [RingEntry.length_toBytes]
      omega
    · have hlt := (List.getElem?_eq_some_iff.mp hp).1
      have hsent := h.sent_le
      rw [h.length_posted] at hnew
      omega

theorem giveAway (h : Flow fw a size sent live first r w t posted) {live' : List Allocation}
    {w' : World} (hw : w'.window = w.window)
    (ho : w'.Owns (a :: ((posted.drop t.reaped).map DmaBuffer.allocation ++ live'))) :
    Flow fw a size sent live' t.reaped r w' t posted where
  wired := h.wired
  capacity := h.capacity
  holds := hw ▸ h.holds
  inside := h.inside
  small := h.small
  tail := hw ▸ h.tail
  accepted_le := h.accepted_le
  sent_le := h.sent_le
  first_le := Nat.le_refl _
  owns := ho
  sized := fun k b hk => h.sized k b (Nat.le_trans h.first_le hk)
  fits := h.fits
  filled := fun k b payload hk => hw ▸ h.filled k b payload (Nat.le_trans h.first_le hk)

theorem deliverFrame (h : Flow fw a size sent live first r w t posted)
    (hhead : SourceRing.PointsTo r.flags w.window r.layout.headAddr (t.armed % r.numEntries))
    (payload : List UInt8) :
    (∃ e, fw.deliverFrame w.window payload = (.error e, w.window)) ∨
      ∃ entry window, fw.deliverFrame w.window payload = (.ok entry, window) ∧
        Flow fw a size (sent ++ [payload]) live first r (w.setWindow window) t posted ∧
        SourceRing.PointsTo r.flags window r.layout.headAddr (t.armed % r.numEntries) := by
  have hw := h.inside.words
  have hsmall := h.small
  have hra := h.holds.reaped_le
  have hacc := h.accepted_le
  have hfirst := h.first_le
  have hcap := h.capacity
  have hcov := h.owns.covers List.mem_cons_self
  have hnext {busAddr cookie : Nat}
      (hp : (armedAs r.numEntries posted)[sent.length]? = some (busAddr, cookie)) :
      ∃ b, posted[sent.length]? = some b ∧ b.allocation.addr = busAddr := by
    rw [getElem?_armedAs, Option.map_eq_some_iff] at hp
    obtain ⟨b, hb, heq⟩ := hp
    exact ⟨b, hb, congrArg Prod.fst heq⟩
  have hbuf (busAddr cookie : Nat)
      (hp : (armedAs r.numEntries posted)[sent.length]? = some (busAddr, cookie)) :
      w.window.Covers busAddr fw.bufferSize ∧
        (busAddr + fw.bufferSize ≤ a.addr ∨ a.addr + a.len ≤ busAddr) := by
    obtain ⟨b, hb, rfl⟩ := hnext hp
    have hlen := (h.sized _ b (by omega) hb).2
    have hap := h.apart (by omega) hb
    have hin := h.owns.covers (List.mem_cons_of_mem a (mem_owned (by omega) hb))
    exact ⟨hin.sub (Nat.le_refl _) (by omega), by omega⟩
  rw [h.wired]
  rcases Firmware.deliverFrame_cases ⟨hhead, h.tail⟩ h.holds h.inside hcov (by omega)
      (Nat.le_trans hra hacc) h.sent_le hbuf payload with
    hrefused | ⟨busAddr, cookie, entry, window, hp, hroom, hshort, hok, hwin, hshared, hholds⟩
  · exact .inl hrefused
  · obtain ⟨b, hb, rfl⟩ := hnext hp
    have hlen := (h.sized _ b (by omega) hb).2
    have hap := h.apart (by omega) hb
    have hin := h.owns.covers (List.mem_cons_of_mem a (mem_owned (by omega) hb))
    have hbytes := length_frameBytes payload
    have hframe : w.window.Covers b.allocation.addr (frameBytes payload).length :=
      hin.sub (Nat.le_refl _) (by omega)
    have hwordLen := SourceRing.length_pointerBytes r.flags ((sent.length + 1) % r.numEntries)
    have hcount : (sent ++ [payload]).length = sent.length + 1 := by simp
    have hlt := (List.getElem?_eq_some_iff.mp hb).1
    rw [h.length_posted] at hlt
    refine .inr ⟨entry, window, hok, ?_, hshared.head⟩
    refine
      { wired := rfl
        capacity := hcap
        holds := hholds
        inside := h.inside
        small := h.small
        tail := hcount ▸ hshared.tail
        accepted_le := hcount ▸ Nat.le_succ_of_le hacc
        sent_le := hcount ▸ hlt
        first_le := hfirst
        owns := h.owns.setWindow ?_ ?_
        sized := h.sized
        fits := ?_
        filled := ?_ }
    · rw [hwin, Window.base_write, Window.base_write]
    · rw [hwin, Window.size_write, Window.size_write]
    · intro q hq
      rcases List.mem_append.mp hq with hq | hq
      · exact h.fits q hq
      · rw [List.mem_singleton.mp hq]
        exact ⟨by omega, hshort⟩
    · intro k c q hk hc hq
      change window.Shows c.allocation.addr (frameBytes q)
      rw [hwin]
      have hapc := h.apart hk hc
      rcases getElem?_concat_cases hq with hold | ⟨rfl, rfl⟩
      · have hle := h.frame_le hk hc hold
        have hkl := (List.getElem?_eq_some_iff.mp hold).1
        have hbc := h.buffers_apart hk hkl hc hb
        exact ((h.filled k c q hk hc hold).write (by omega)).write (by omega)
      · rw [hb] at hc
        cases hc
        exact (Window.shows_write hframe).write (by omega)

end Flow

end FrameRing
