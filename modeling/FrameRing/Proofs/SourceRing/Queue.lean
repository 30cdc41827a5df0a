import FrameRing.Firmware
import FrameRing.Proofs.EntryFormat
import FrameRing.Proofs.SourceRing.Pointers

/-! # A source ring as a queue in memory

Entries go in at the head and come out in the same order, each as it was put in. Between the two
they lie at their positions, and nothing that is written elsewhere touches them. -/

namespace FrameRing

structure RingLayout.Inside (l : RingLayout) (a : Allocation) : Prop where
  stride : StrideOk l.entrySize
  base : l.baseAddr = a.addr
  head : l.headAddr = l.baseAddr + headOffset l.numEntries l.entrySize
  tail : l.tailAddr = l.headAddr + wordSize
  stop : l.tailAddr + wordSize ≤ a.addr + a.len
  limit : a.addr + a.len ≤ addressLimit

namespace RingLayout

variable {l : RingLayout} {a : Allocation}

theorem le_alignUp (n : Nat) {unit : Nat} (h : 0 < unit) : n ≤ alignUp n unit := by
  have hd := Nat.div_add_mod (n + unit - 1) unit
  have hm := Nat.mod_lt (n + unit - 1) h
  rw [alignUp, Nat.mul_comm]
  omega

theorem inside_of_ofBase {n stride : Nat} (h : ofBase a.addr n stride = .ok l)
    (hlen : querySize n stride ≤ a.len) (hlim : a.addr + a.len ≤ addressLimit) : l.Inside a := by
  have hq := le_alignUp (headOffset n stride + 2 * wordSize) (show 0 < baseAlign by decide)
  unfold ofBase at h
  split at h
  · rename_i hc
    cases h
    refine ⟨hc.2, rfl, rfl, rfl, ?_, hlim⟩
    simp only [querySize] at hlen
    simp only
    omega
  · cases h

def extent (l : RingLayout) : Allocation :=
  ⟨l.baseAddr, l.tailAddr + wordSize - l.baseAddr⟩

theorem inside_extent {base n stride : Nat} (h : ofBase base n stride = .ok l)
    (hlim : l.tailAddr + wordSize ≤ addressLimit) : l.Inside l.extent := by
  unfold ofBase at h
  split at h
  · rename_i hc
    cases h
    refine ⟨hc.2, rfl, rfl, rfl, ?_, ?_⟩
    · simp only [extent]
      omega
    · simp only [extent] at hlim ⊢
      omega
  · cases h

theorem Inside.extent (h : l.Inside a) : l.Inside l.extent := by
  have hbase := h.base
  have hhead := h.head
  have htail := h.tail
  have hstop := h.stop
  have hlimit := h.limit
  refine ⟨h.stride, rfl, hhead, htail, ?_, ?_⟩
  · simp only [RingLayout.extent]
    omega
  · simp only [RingLayout.extent]
    omega

def positionAddr (l : RingLayout) (idx : Nat) : Nat := l.baseAddr + idx * l.entrySize

theorem positionAddr_before_head (hstride : StrideOk l.entrySize)
    (hhead : l.headAddr = l.baseAddr + headOffset l.numEntries l.entrySize) {idx : Nat}
    (hi : idx < l.numEntries) :
    l.baseAddr ≤ l.positionAddr idx ∧ l.positionAddr idx + RingEntry.size ≤ l.headAddr := by
  have hw : RingEntry.size ≤ l.entrySize := hstride.1
  have hm := Nat.mul_le_mul_right l.entrySize (Nat.succ_le_of_lt hi)
  have hup := le_alignUp (l.numEntries * l.entrySize) (show 0 < wordSize by decide)
  rw [Nat.succ_mul] at hm
  replace hhead : l.headAddr = l.baseAddr + alignUp (l.numEntries * l.entrySize) wordSize := hhead
  rw [positionAddr, hhead]
  omega

theorem Inside.entry (h : l.Inside a) {idx : Nat} (hi : idx < l.numEntries) :
    a.addr ≤ l.positionAddr idx ∧ l.positionAddr idx + RingEntry.size ≤ l.headAddr := by
  rw [← h.base]
  exact positionAddr_before_head h.stride h.head hi

theorem Inside.entryAddr? (h : l.Inside a) {idx : Nat} (hi : idx < l.numEntries) :
    l.entryAddr? idx = some (l.positionAddr idx) := by
  have hb := h.entry hi
  have ht := h.tail
  have hs := h.stop
  have hl := h.limit
  have hsize : RingEntry.size = 8 := rfl
  simp only [RingLayout.entryAddr?]
  exact if_pos ⟨hi, show l.positionAddr idx < addressLimit by omega⟩

theorem Inside.words (h : l.Inside a) :
    a.addr ≤ l.headAddr ∧ l.tailAddr = l.headAddr + 4 ∧ l.tailAddr + 4 ≤ a.addr + a.len := by
  have hh := h.head
  have hb := h.base
  exact ⟨by omega, h.tail, h.stop⟩

end RingLayout

namespace Window

variable {m : Window} {addr len : Nat}

theorem Covers.sub {addr' len' : Nat} (h : m.Covers addr len) (hlow : addr ≤ addr')
    (hhigh : addr' + len' ≤ addr + len) : m.Covers addr' len' := by
  obtain ⟨hb, hs⟩ := h
  exact ⟨by omega, by omega⟩

end Window

namespace SourceRing

theorem pointerWord_lt {flags : RingFlags} {x : Nat} (hx : x < 1 <<< 32) :
    pointerWord flags x < 1 <<< 32 := by
  unfold pointerWord
  split
  · exact LittleEndian.swapWord_lt x
  · exact hx

theorem pointerWord_pointerWord (flags : RingFlags) {x : Nat} (hx : x < 1 <<< 32) :
    pointerWord flags (pointerWord flags x) = x := by
  unfold pointerWord
  split
  · exact LittleEndian.swapWord_swapWord hx
  · rfl

def pointerBytes (flags : RingFlags) (position : Nat) : List UInt8 :=
  LittleEndian.encode 4 (pointerWord flags position)

@[simp] theorem length_pointerBytes (flags : RingFlags) (position : Nat) :
    (pointerBytes flags position).length = 4 :=
  LittleEndian.length_encode 4 _

theorem pointerBytes_zero (flags : RingFlags) :
    pointerBytes flags 0 = LittleEndian.encode 4 0 := by
  obtain ⟨low, swap, other⟩ := flags
  cases swap with
  | false => rfl
  | true => rfl

def PointsTo (flags : RingFlags) (m : Window) (addr position : Nat) : Prop :=
  m.Shows addr (pointerBytes flags position)

theorem PointsTo.write {flags : RingFlags} {m : Window} {addr position a : Nat}
    {src : List UInt8} (h : PointsTo flags m addr position)
    (ho : addr + 4 ≤ a ∨ a + src.length ≤ addr) : PointsTo flags (m.write a src).2 addr position :=
  Window.Shows.write h (by rwa [length_pointerBytes])

theorem PointsTo.load {flags : RingFlags} {m : Window} {addr position : Nat}
    (h : PointsTo flags m addr position) (hc : m.Covers addr 4) (hp : position < 1 <<< 32) :
    ∃ word, m.loadWord addr = .ok word ∧ pointerWord flags word = position :=
  ⟨_, (Window.loadWord_eq_ok_iff (pointerWord_lt hp)).mpr ⟨hc, h⟩,
    pointerWord_pointerWord flags hp⟩

theorem storePointer_healthy {flags : RingFlags} {m : HostMemory} {addr position : Nat}
    (hf : m.faults = []) (hc : m.window.Covers addr 4) :
    storePointer flags m addr position =
      (.ok (), { m with window := (m.window.write addr (pointerBytes flags position)).2 }) := by
  rw [storePointer, HostMemory.storeWord_healthy hf hc]
  rfl

/-- What was armed and is not reaped lies at its position, oldest first. -/
structure Holds (r : SourceRing) (m : Window) (t : Tally) (posted : List (Nat × Nat)) : Prop
    extends Tracks r t where
  length : posted.length = t.armed
  shown : ∀ k busAddr cookie, t.reaped ≤ k → posted[k]? = some (busAddr, cookie) →
    ∃ entry, RingEntry.ofFields busAddr cookie r.rbm = .ok entry ∧
      m.Shows (r.layout.positionAddr (k % r.numEntries)) entry.toBytes

variable {r : SourceRing} {m : Window} {t : Tally} {posted : List (Nat × Nat)} {a : Allocation}

theorem Holds.position_lt (h : Holds r m t posted) (k : Nat) :
    k % r.numEntries < r.layout.numEntries :=
  Nat.mod_lt _ (Nat.lt_of_lt_of_le (by decide) h.size)

theorem Holds.write (h : Holds r m t posted) (hl : r.layout.Inside a) {addr : Nat}
    {src : List UInt8} (ho : addr + src.length ≤ a.addr ∨ r.layout.headAddr ≤ addr) :
    Holds r (m.write addr src).2 t posted :=
  { h with
    shown := fun k busAddr cookie hk hp => by
      obtain ⟨entry, he, hs⟩ := h.shown k busAddr cookie hk hp
      have hin := hl.entry (h.position_lt k)
      refine ⟨entry, he, hs.write ?_⟩
      rw [RingEntry.length_toBytes]
      omega }

theorem nextEntry_memory (r : SourceRing) (h : Host) : (r.nextEntry h).2.memory = h.memory := by
  unfold nextEntry
  simp only
  split
  · rfl
  split
  · rfl
  split <;> rfl

variable {hm : HostMemory}

theorem create_shape {reg : Registration} {rbm : Nat} (h : (create reg rbm hm).1 = .ok r) :
    rbm ≤ RingEntry.maxRbm ∧
      RingLayout.ofBase reg.ringBase reg.numEntries reg.entrySize = .ok r.layout ∧
      r = ⟨r.layout, reg.flags, reg.lowThreshold, rbm, 0, reg.numEntries - 1, 0, false⟩ := by
  unfold create at h
  split at h
  · cases h
  rename_i hvalid
  split at h
  · cases h
  rename_i layout hl
  split at h
  · cases h
  split at h
  · cases h
  cases h
  exact ⟨by omega, hl, rfl⟩

theorem create_holds {reg : Registration} {rbm : Nat} {hm' : HostMemory}
    (h : create reg rbm hm = (.ok r, hm')) (hf : hm.faults = [])
    (hc : hm.window.Covers a.addr a.len) (hinside : r.layout.Inside a) :
    ∃ window, hm' = { hm with window } ∧ window.base = hm.window.base ∧
      window.size = hm.window.size ∧ Holds r window ⟨0, 0, 0⟩ [] ∧
      PointsTo r.flags window r.layout.headAddr 0 ∧
      PointsTo r.flags window r.layout.tailAddr 0 := by
  obtain ⟨htracks, -⟩ := Tracks.of_create (congrArg Prod.fst h)
  obtain ⟨-, hlayout, hr⟩ := create_shape (congrArg Prod.fst h)
  have hflags : r.flags = reg.flags := by rw [hr]
  unfold create at h
  split at h
  · cases h
  rw [hlayout, ← hflags] at h
  have hw := hinside.words
  have hhead : hm.window.Covers r.layout.headAddr (pointerBytes r.flags 0).length :=
    hc.sub (by omega) (by rw [length_pointerBytes]; omega)
  have htail : (hm.window.write r.layout.headAddr (pointerBytes r.flags 0)).2.Covers
      r.layout.tailAddr (pointerBytes r.flags 0).length :=
    Window.covers_write.mpr (hc.sub (by omega) (by rw [length_pointerBytes]; omega))
  have hfirst : storePointer r.flags hm r.layout.headAddr 0 = _ :=
    storePointer_healthy hf (by simpa using hhead)
  have hsecond : storePointer r.flags
      { hm with window := (hm.window.write r.layout.headAddr (pointerBytes r.flags 0)).2 }
      r.layout.tailAddr 0 = _ := storePointer_healthy hf (by simpa using htail)
  simp only [hfirst, hsecond] at h
  have hwindow := (congrArg Prod.snd h).symm
  refine ⟨_, hwindow, ?_, ?_, ⟨htracks, rfl, fun k _ _ _ hp => by cases hp⟩, ?_, ?_⟩
  · rw [Window.base_write, Window.base_write]
  · rw [Window.size_write, Window.size_write]
  · exact PointsTo.write (Window.shows_write hhead) (by rw [length_pointerBytes]; omega)
  · exact Window.shows_write htail

theorem create_healthy {reg : Registration} {rbm : Nat} {hm' : HostMemory}
    (h : create reg rbm hm = (.ok r, hm')) (hf : hm.faults = [])
    (hc : hm.window.Covers a.addr a.len) (haddr : reg.ringBase = a.addr)
    (hlen : RingLayout.querySize reg.numEntries reg.entrySize ≤ a.len)
    (hlim : a.addr + a.len ≤ addressLimit) :
    ∃ window, hm' = { hm with window } ∧ window.base = hm.window.base ∧
      window.size = hm.window.size ∧ r.numEntries = reg.numEntries ∧ r.inAccess = false ∧
      r.layout.Inside a ∧ Holds r window ⟨0, 0, 0⟩ [] ∧
      PointsTo r.flags window r.layout.tailAddr 0 := by
  obtain ⟨-, hn⟩ := Tracks.of_create (congrArg Prod.fst h)
  obtain ⟨-, hlayout, hr⟩ := create_shape (congrArg Prod.fst h)
  have hclosed : r.inAccess = false := by rw [hr]
  have hinside := RingLayout.inside_of_ofBase (haddr ▸ hlayout) hlen hlim
  obtain ⟨window, hm', hbase, hsize, hholds, -, htail⟩ := create_holds h hf hc hinside
  exact ⟨window, hm', hbase, hsize, hn, hclosed, hinside, hholds, htail⟩

theorem accessEnd_healthy (journal : Array LogEvent) (hs : r.inAccess = true)
    (hf : hm.faults = []) (hc : hm.window.Covers r.layout.headAddr 4) :
    r.accessEnd ⟨hm, journal⟩ =
      ({ r with inAccess := false },
        ⟨{ hm with window := (hm.window.write r.layout.headAddr (pointerBytes r.flags r.head)).2 },
          journal⟩) := by
  simp only [accessEnd, hs, if_true, storePointer_healthy hf hc]

theorem Tracks.accessBegin_healthy (h : Tracks r t) {tail : Nat} (hs : r.inAccess = false)
    (hf : hm.faults = []) (hc : hm.window.Covers r.layout.tailAddr 4)
    (hp : PointsTo r.flags hm.window r.layout.tailAddr (tail % r.numEntries))
    (hn : r.numEntries ≤ 1 <<< 32) (hlow : t.accepted ≤ tail) (hhigh : tail ≤ t.armed) :
    r.accessBegin hm =
        (.ok (), { r with cachedTail := tail % r.numEntries, inAccess := true }) ∧
      Tracks { r with cachedTail := tail % r.numEntries, inAccess := true }
        { t with accepted := tail } := by
  have hr := h.reaped_le
  have ha := h.armed_lt
  have hlt : tail % r.numEntries < r.numEntries :=
    Nat.mod_lt _ (Nat.lt_of_lt_of_le (by decide) h.size)
  obtain ⟨word, hload, hword⟩ := hp.load hc (by omega)
  have hsteps : r.distance r.cachedTail (tail % r.numEntries) = tail - t.accepted := by
    rw [distance, h.cachedTail]
    exact steps_between hlow (by omega)
  have hloaded : r.loadTail hm = .ok (tail % r.numEntries) := by
    refine loadTail_eq_ok_iff.mpr ⟨word, ?_, hword, hlt, ?_⟩
    · rw [HostMemory.loadWord_healthy hf, hload]
    · rw [hsteps, distance, h.cachedTail, h.head, steps_between (by omega) (by omega)]
      omega
  have htracks := h.accept hloaded
  rw [hsteps, Nat.add_sub_of_le hlow] at htracks
  refine ⟨?_, htracks⟩
  rw [accessBegin, hs, hloaded]
  rfl

theorem Holds.nextEntry_healthy (h : Holds r hm.window t posted) (journal : Array LogEvent)
    {busAddr cookie : Nat} (hl : r.layout.Inside a) (hs : r.inAccess = true)
    (hf : hm.faults = []) (hc : hm.window.Covers a.addr a.len)
    (hlt : t.reaped < t.accepted) (hp : posted[t.reaped]? = some (busAddr, cookie)) :
    ∃ entry, RingEntry.ofFields busAddr cookie r.rbm = .ok entry ∧
      r.nextEntry ⟨hm, journal⟩ =
        (some ⟨t.reaped % r.numEntries, entry, true⟩, ⟨hm, journal⟩) := by
  have ha := h.accepted_le
  have harm := h.armed_lt
  obtain ⟨entry, he, hshown⟩ := h.shown _ _ _ (Nat.le_refl _) hp
  refine ⟨entry, he, ?_⟩
  have hin := hl.entry (h.position_lt t.reaped)
  have hw := hl.words
  have hread : hm.read (r.layout.positionAddr (t.reaped % r.numEntries)) RingEntry.size =
      .ok entry.toBytes := by
    rw [HostMemory.read_healthy hf]
    exact Window.read_eq_ok_iff.mpr
      ⟨hc.sub hin.1 (by omega), RingEntry.length_toBytes entry, hshown⟩
  have hopen : ¬ (r.inAccess = false ∨ t.reaped % r.numEntries = r.cachedTail) := by
    rw [hs, h.cachedTail]
    simp only [Bool.true_eq_false, false_or]
    exact position_ne hlt (by omega)
  simp only [nextEntry, h.reapHead, if_neg hopen, hl.entryAddr? (h.position_lt t.reaped), hread,
    RingEntry.ofBytes_toBytes]

theorem Holds.setEntry_healthy (h : Holds r hm.window t posted) {res : Reservation}
    {busAddr cookie : Nat} {entry : RingEntry} (hl : r.layout.Inside a)
    (hs : r.inAccess = true) (hf : hm.faults = []) (hc : hm.window.Covers a.addr a.len)
    (hcur : r.Current res) (hroom : r.head ≠ r.reapHeadAfter res)
    (he : RingEntry.ofFields busAddr cookie r.rbm = .ok entry) :
    let r' := { r with reapHead := r.reapHeadAfter res, head := r.next r.head }
    let window := (hm.window.write (r.layout.positionAddr r.head) entry.toBytes).2
    r.setEntry hm res busAddr cookie = (.ok (), r', { hm with window }) ∧
      Holds r' window (t.arm res) (posted ++ [(busAddr, cookie)]) := by
  have hhead : r.head < r.layout.numEntries := h.head ▸ h.position_lt t.armed
  have hin := hl.entry hhead
  have hw := hl.words
  have hcov : hm.window.Covers (r.layout.positionAddr r.head) entry.toBytes.length := by
    rw [RingEntry.length_toBytes]
    exact hc.sub hin.1 (by omega)
  refine ⟨?_, h.toTracks.arm hcur hroom, ?_, ?_⟩
  · simp only [setEntry, hs, hcur, hroom, he, hl.entryAddr? hhead,
      HostMemory.write_healthy hf hcov, Bool.true_eq_false, not_true_eq_false, if_false]
  · rw [List.length_append, h.length]
    rfl
  · intro k addr' cookie' hk hp
    have hmono : t.reaped ≤ (t.arm res).reaped := Nat.le_add_right _ _
    have hk : t.reaped ≤ k := Nat.le_trans hmono hk
    rcases getElem?_concat_cases hp with hold | ⟨hnew, heq⟩
    · obtain ⟨entry', he', hshown⟩ := h.shown k addr' cookie' hk hold
      refine ⟨entry', he', hshown.write ?_⟩
      have harm := h.armed_lt
      have hlt := (List.getElem?_eq_some_iff.mp hold).1
      rw [h.length] at hlt
      have hne : k % r.numEntries ≠ r.head := h.head ▸ position_ne hlt (by omega)
      have hap := RingLayout.entries_apart hl.stride hne (hl.entryAddr? (h.position_lt k))
        (hl.entryAddr? hhead)
      rw [RingEntry.length_toBytes, RingEntry.length_toBytes]
      exact hap
    · cases heq
      refine ⟨entry, he, ?_⟩
      rw [hnew, h.length]
      change Window.Shows _ (r.layout.positionAddr (t.armed % r.numEntries)) _
      rw [← h.head]
      exact Window.shows_write hcov

end SourceRing

end FrameRing
