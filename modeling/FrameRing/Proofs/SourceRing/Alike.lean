import FrameRing.Proofs.SourceRing.Footprint

/-! # Two memories to one ring

Of the memory around it, a source ring takes notice of the tail word and of the cookies of the
entries that completed. On two memories that agree on these it answers alike and does the same. -/

namespace FrameRing

namespace Window

variable {m : Window} {addr len : Nat} {src : List UInt8}

theorem read_write_self (hc : m.Covers addr src.length) :
    (m.write addr src).2.read addr src.length = .ok src :=
  read_eq_ok_iff.mpr ⟨covers_write.mpr hc, rfl, shows_write hc⟩

theorem read_write_of_apart {x : Nat} (ho : x + len ≤ addr ∨ addr + src.length ≤ x) :
    (m.write addr src).2.read x len = m.read x len := by
  by_cases hc : m.Covers x len
  · obtain ⟨bs, hr⟩ := exists_read hc
    obtain ⟨-, hlen, hshows⟩ := read_eq_ok_iff.mp hr
    rw [hr]
    apply read_eq_ok_iff.mpr
    refine ⟨covers_write.mpr hc, hlen, hshows.write ?_⟩
    rwa [hlen]
  · simp only [read, covers_write, hc, if_false]

end Window

namespace HostMemory

def put (m : HostMemory) (kind : AccessKind) (addr : Nat) (src : List UInt8) :
    Except MemFault Unit × HostMemory :=
  if m.Blocked kind addr src.length ∨ ¬ m.window.Covers addr src.length then (.error ⟨addr⟩, m)
  else (.ok (), { m with window := (m.window.write addr src).2 })

theorem write_eq_put (m : HostMemory) (addr : Nat) (src : List UInt8) :
    m.write addr src = m.put .write addr src := by
  obtain ⟨window, faults⟩ := m
  unfold write put
  by_cases hb : Blocked ⟨window, faults⟩ .write addr src.length
  · simp only [hb, true_or, if_true]
  by_cases hc : window.Covers addr src.length
  · simp only [hb, hc, not_true_eq_false, or_self, if_false, Window.write, if_true]
  · simp only [hb, hc, not_false_eq_true, or_true, if_false, Window.write, if_true]

theorem storeWord_eq_put (m : HostMemory) (addr word : Nat) :
    m.storeWord addr word = m.put .store addr (LittleEndian.encode 4 word) := by
  obtain ⟨window, faults⟩ := m
  unfold storeWord put Window.storeWord
  rw [LittleEndian.length_encode]
  by_cases hb : Blocked ⟨window, faults⟩ .store addr 4
  · simp only [hb, true_or, if_true]
  by_cases hc : window.Covers addr 4
  · simp only [hb, hc, not_true_eq_false, or_self, if_false, Window.write,
      LittleEndian.length_encode, if_true]
  · simp only [hb, hc, not_false_eq_true, or_true, if_false, Window.write,
      LittleEndian.length_encode, if_true]

/-- The same addresses are mapped, and the same accesses fail. -/
structure Alike (m m' : HostMemory) : Prop where
  base : m.window.base = m'.window.base
  size : m.window.size = m'.window.size
  faults : m.faults = m'.faults

theorem Alike.refl (m : HostMemory) : m.Alike m := ⟨rfl, rfl, rfl⟩

theorem alike_write (m : HostMemory) (addr : Nat) (src : List UInt8) :
    m.Alike { m with window := (m.window.write addr src).2 } :=
  ⟨Window.base_write.symm, Window.size_write.symm, rfl⟩

namespace Alike

variable {m m' m'' : HostMemory} {addr len : Nat}

theorem trans (h : m.Alike m') (h' : m'.Alike m'') : m.Alike m'' :=
  ⟨h.base.trans h'.base, h.size.trans h'.size, h.faults.trans h'.faults⟩

theorem covers (h : m.Alike m') : m.window.Covers addr len ↔ m'.window.Covers addr len := by
  rw [Window.Covers, Window.Covers, h.base, h.size]

theorem blocked (h : m.Alike m') (kind : AccessKind) :
    m.Blocked kind addr len ↔ m'.Blocked kind addr len := by
  rw [Blocked, Blocked, h.faults]

theorem read (h : m.Alike m') (hr : m.window.read addr len = m'.window.read addr len) :
    m.read addr len = m'.read addr len := by
  unfold HostMemory.read
  by_cases hb : m.Blocked .read addr len
  · rw [if_pos hb, if_pos ((h.blocked .read).mp hb)]
  · rw [if_neg hb, if_neg fun hb' => hb ((h.blocked .read).mpr hb'), hr]

theorem loadWord (h : m.Alike m') (hr : m.window.loadWord addr = m'.window.loadWord addr) :
    m.loadWord addr = m'.loadWord addr := by
  unfold HostMemory.loadWord
  by_cases hb : m.Blocked .load addr 4
  · rw [if_pos hb, if_pos ((h.blocked .load).mp hb)]
  · rw [if_neg hb, if_neg fun hb' => hb ((h.blocked .load).mpr hb'), hr]

theorem read_cases (h : m.Alike m') (addr len : Nat) :
    (∃ e e', m.read addr len = .error e ∧ m'.read addr len = .error e') ∨
      ∃ bs bs', m.read addr len = .ok bs ∧ m.window.read addr len = .ok bs ∧
        m'.read addr len = .ok bs' ∧ m'.window.read addr len = .ok bs' := by
  unfold HostMemory.read
  by_cases hb : m.Blocked .read addr len
  · rw [if_pos hb, if_pos ((h.blocked .read).mp hb)]
    exact .inl ⟨_, _, rfl, rfl⟩
  rw [if_neg hb, if_neg fun hb' => hb ((h.blocked .read).mpr hb')]
  by_cases hc : m.window.Covers addr len
  · obtain ⟨bs, hr⟩ := Window.exists_read hc
    obtain ⟨bs', hr'⟩ := Window.exists_read (h.covers.mp hc)
    exact .inr ⟨bs, bs', hr, hr, hr', hr'⟩
  · have hc' : ¬ m'.window.Covers addr len := fun hc' => hc (h.covers.mpr hc')
    rw [Window.read, if_neg hc, Window.read, if_neg hc']
    exact .inl ⟨_, _, rfl, rfl⟩

theorem written (h : m.Alike m') (addr : Nat) (src : List UInt8) :
    Alike { m with window := (m.window.write addr src).2 }
      { m' with window := (m'.window.write addr src).2 } := by
  refine ⟨?_, ?_, h.faults⟩
  · rw [Window.base_write, Window.base_write, h.base]
  · rw [Window.size_write, Window.size_write, h.size]

/-- The same bytes are written to both memories, or to neither. -/
theorem put_cases (h : m.Alike m') (kind : AccessKind) (addr : Nat) (src : List UInt8) :
    (m.put kind addr src = (.error ⟨addr⟩, m) ∧ m'.put kind addr src = (.error ⟨addr⟩, m')) ∨
      (m.put kind addr src = (.ok (), { m with window := (m.window.write addr src).2 }) ∧
        m'.put kind addr src = (.ok (), { m' with window := (m'.window.write addr src).2 })) := by
  unfold HostMemory.put
  by_cases hrefused : m.Blocked kind addr src.length ∨ ¬ m.window.Covers addr src.length
  · have hrefused' := hrefused
    rw [h.blocked, h.covers] at hrefused'
    rw [if_pos hrefused, if_pos hrefused']
    exact .inl ⟨rfl, rfl⟩
  · have hgranted := hrefused
    rw [h.blocked, h.covers] at hgranted
    rw [if_neg hrefused, if_neg hgranted]
    exact .inr ⟨rfl, rfl⟩

end Alike

def Together (a : Allocation) (m m' after after' : HostMemory) : Prop :=
  (after = m ∧ after' = m') ∨
    ∃ addr src, a.addr ≤ addr ∧ addr + src.length ≤ a.addr + a.len ∧
      after = { m with window := (m.window.write addr src).2 } ∧
      after' = { m' with window := (m'.window.write addr src).2 }

namespace Together

variable {a b : Allocation} {m m' after after' : HostMemory}

theorem alike (h : Together a m m' after after') (hm : m.Alike m') : after.Alike after' := by
  rcases h with ⟨rfl, rfl⟩ | ⟨addr, src, -, -, rfl, rfl⟩
  · exact hm
  · exact hm.written addr src

theorem mono (h : Together b m m' after after') (hlow : a.addr ≤ b.addr)
    (hhigh : b.addr + b.len ≤ a.addr + a.len) : Together a m m' after after' := by
  rcases h with hsame | ⟨addr, src, hfirst, hlast, hafter⟩
  · exact .inl hsame
  · exact .inr ⟨addr, src, by omega, by omega, hafter⟩

theorem spares (h : Together a m m' after after') {x len : Nat}
    (ho : x + len ≤ a.addr ∨ a.addr + a.len ≤ x) :
    after.window.read x len = m.window.read x len ∧
      after'.window.read x len = m'.window.read x len := by
  rcases h with ⟨rfl, rfl⟩ | ⟨addr, src, hlow, hhigh, rfl, rfl⟩
  · exact ⟨rfl, rfl⟩
  · have hapart : x + len ≤ addr ∨ addr + src.length ≤ x := by omega
    exact ⟨Window.read_write_of_apart hapart, Window.read_write_of_apart hapart⟩

end Together

theorem Alike.put_together {m m' : HostMemory} (h : m.Alike m') (kind : AccessKind) (addr : Nat)
    (src : List UInt8) :
    (m.put kind addr src).1 = (m'.put kind addr src).1 ∧
      Together ⟨addr, src.length⟩ m m' (m.put kind addr src).2 (m'.put kind addr src).2 := by
  rcases h.put_cases kind addr src with ⟨he, he'⟩ | ⟨he, he'⟩
  · rw [he, he']
    exact ⟨rfl, .inl ⟨rfl, rfl⟩⟩
  · rw [he, he']
    exact ⟨rfl, .inr ⟨addr, src, Nat.le_refl _, Nat.le_refl _, rfl, rfl⟩⟩

end HostMemory

def RingLayout.cookieAt (l : RingLayout) (m : Window) (idx : Nat) : Except MemFault Nat :=
  (m.read (l.positionAddr idx) RingEntry.size).map fun bytes => (RingEntry.ofBytes bytes).cookie

structure Reservation.Like (res res' : Reservation) : Prop where
  index : res.index = res'.index
  completed : res.completed = res'.completed
  cookie : res.entry.cookie = res'.entry.cookie

namespace SourceRing

variable {r : SourceRing} {a : Allocation} {m m' : HostMemory} {t : Tally}

/-- What completed and is not reaped has the same cookies in both windows. -/
def SameCookies (r : SourceRing) (t : Tally) (w w' : Window) : Prop :=
  ∀ k, t.reaped ≤ k → k < t.accepted →
    r.layout.cookieAt w (k % r.numEntries) = r.layout.cookieAt w' (k % r.numEntries)

theorem SameCookies.of_spared {w w' v v' : Window} (h : SameCookies r t w w')
    (hv : ∀ k, t.reaped ≤ k → k < t.accepted →
      v.read (r.layout.positionAddr (k % r.numEntries)) RingEntry.size =
          w.read (r.layout.positionAddr (k % r.numEntries)) RingEntry.size ∧
        v'.read (r.layout.positionAddr (k % r.numEntries)) RingEntry.size =
          w'.read (r.layout.positionAddr (k % r.numEntries)) RingEntry.size) :
    SameCookies r t v v' := by
  intro k hk hka
  have hsame := h k hk hka
  obtain ⟨hread, hread'⟩ := hv k hk hka
  unfold RingLayout.cookieAt at hsame ⊢
  rwa [hread, hread']

theorem accessBegin_alike (hm : m.Alike m')
    (ht : m.window.loadWord r.layout.tailAddr = m'.window.loadWord r.layout.tailAddr) :
    r.loadTail m = r.loadTail m' ∧ r.accessBegin m = r.accessBegin m' := by
  have hload : r.loadTail m = r.loadTail m' := by
    unfold loadTail
    rw [hm.loadWord ht]
  refine ⟨hload, ?_⟩
  unfold accessBegin
  rw [hload]

/-- A section opens on the same completions, and they have the same cookies. -/
theorem sameCookies_opened (ht : r.Tracks t) {tail : Nat} (hl : r.loadTail m = .ok tail)
    (hc : ∀ k, k < r.completed tail →
      r.layout.cookieAt m.window ((r.next r.reapHead + k) % r.numEntries) =
        r.layout.cookieAt m'.window ((r.next r.reapHead + k) % r.numEntries)) :
    ∃ t', Tracks { r with cachedTail := tail, inAccess := true } t' ∧
      SameCookies { r with cachedTail := tail, inAccess := true } t' m.window m'.window := by
  have hopened := ht.accept hl
  refine ⟨_, hopened, ?_⟩
  intro k hk hka
  have hcompleted : r.completed tail = t.accepted + r.distance r.cachedTail tail - t.reaped :=
    hopened.completed_eq
  have hk' : t.reaped ≤ k := hk
  have hka' : k < t.accepted + r.distance r.cachedTail tail := hka
  have hsame := hc (k - t.reaped) (by omega)
  rw [ht.reapHead, Nat.mod_add_mod, Nat.add_sub_of_le hk'] at hsame
  exact hsame

theorem storePointer_eq (flags : RingFlags) (m : HostMemory) (addr position : Nat) :
    storePointer flags m addr position =
      if m.Blocked .store addr 4 ∨ ¬ m.window.Covers addr 4 then (.error .memoryError, m)
      else
        (.ok (), { m with window := (m.window.write addr (pointerBytes flags position)).2 }) := by
  rw [storePointer, HostMemory.storeWord_eq_put, HostMemory.put, LittleEndian.length_encode]
  by_cases hrefused : m.Blocked .store addr 4 ∨ ¬ m.window.Covers addr 4
  · rw [if_pos hrefused, if_pos hrefused]
  · rw [if_neg hrefused, if_neg hrefused]
    rfl

theorem storePointer_cases (flags : RingFlags) (m : HostMemory) (addr position : Nat) :
    storePointer flags m addr position = (.error .memoryError, m) ∨
      (m.window.Covers addr 4 ∧ storePointer flags m addr position =
        (.ok (), { m with window := (m.window.write addr (pointerBytes flags position)).2 })) := by
  rw [storePointer_eq]
  by_cases hrefused : m.Blocked .store addr 4 ∨ ¬ m.window.Covers addr 4
  · rw [if_pos hrefused]
    exact .inl rfl
  · rw [if_neg hrefused]
    exact .inr ⟨Decidable.not_not.mp (not_or.mp hrefused).2, rfl⟩

theorem storePointer_alike (hm : m.Alike m') (flags : RingFlags) (addr position : Nat) :
    (storePointer flags m addr position).1 = (storePointer flags m' addr position).1 ∧
      HostMemory.Together ⟨addr, 4⟩ m m' (storePointer flags m addr position).2
        (storePointer flags m' addr position).2 := by
  have hput := hm.put_together .store addr (LittleEndian.encode 4 (pointerWord flags position))
  rw [← HostMemory.storeWord_eq_put, ← HostMemory.storeWord_eq_put,
    LittleEndian.length_encode] at hput
  unfold storePointer
  generalize m.storeWord addr (pointerWord flags position) = out at hput ⊢
  generalize m'.storeWord addr (pointerWord flags position) = out' at hput ⊢
  obtain ⟨result, after⟩ := out
  obtain ⟨result', after'⟩ := out'
  obtain ⟨rfl, htogether⟩ := hput
  cases result with
  | ok => exact ⟨rfl, htogether⟩
  | error e => exact ⟨rfl, htogether⟩

theorem accessEnd_alike (r : SourceRing) (hm : m.Alike m') (journal : Array LogEvent) :
    (r.accessEnd ⟨m, journal⟩).2.journal = (r.accessEnd ⟨m', journal⟩).2.journal ∧
      HostMemory.Together r.layout.headWord m m' (r.accessEnd ⟨m, journal⟩).2.memory
        (r.accessEnd ⟨m', journal⟩).2.memory := by
  have hstore := storePointer_alike hm r.flags r.layout.headAddr r.head
  unfold accessEnd
  by_cases hs : r.inAccess = true
  · simp only [hs, if_true]
    generalize storePointer r.flags m r.layout.headAddr r.head = out at hstore ⊢
    generalize storePointer r.flags m' r.layout.headAddr r.head = out' at hstore ⊢
    obtain ⟨result, after⟩ := out
    obtain ⟨result', after'⟩ := out'
    obtain ⟨rfl, htogether⟩ := hstore
    cases result with
    | ok => exact ⟨rfl, htogether⟩
    | error e => exact ⟨rfl, htogether⟩
  · simp only [hs]
    exact ⟨rfl, .inl ⟨rfl, rfl⟩⟩

theorem nextEntry_alike (ht : r.Tracks t) (hm : m.Alike m') (journal : Array LogEvent)
    (hc : r.SameCookies t m.window m'.window) :
    Option.Rel Reservation.Like (r.nextEntry ⟨m, journal⟩).1 (r.nextEntry ⟨m', journal⟩).1 ∧
      (r.nextEntry ⟨m, journal⟩).2.journal = (r.nextEntry ⟨m', journal⟩).2.journal := by
  unfold nextEntry
  by_cases hnone : r.inAccess = false ∨ r.next r.reapHead = r.cachedTail
  · simp only [hnone, if_true]
    exact ⟨.none, trivial⟩
  simp only [hnone, if_false]
  cases haddr : r.layout.entryAddr? (r.next r.reapHead) with
  | none => exact ⟨.none, rfl⟩
  | some addr =>
    simp only
    rcases hm.read_cases addr RingEntry.size with
      ⟨e, e', he, he'⟩ | ⟨bs, bs', hbs, hwindow, hbs', hwindow'⟩
    · rw [he, he']
      exact ⟨.none, rfl⟩
    · rw [hbs, hbs']
      refine ⟨.some ⟨rfl, rfl, ?_⟩, rfl⟩
      have hlt : t.reaped < t.accepted := by
        have hle := ht.reaped_le
        rcases Nat.lt_or_eq_of_le hle with hlt | heq
        · exact hlt
        · refine absurd (.inr ?_) hnone
          rw [ht.reapHead, ht.cachedTail, heq]
      have hsame := hc t.reaped (Nat.le_refl _) hlt
      obtain ⟨-, rfl⟩ := RingLayout.entryAddr?_eq_some haddr
      rw [← ht.reapHead, RingLayout.cookieAt, RingLayout.cookieAt, RingLayout.positionAddr,
        hwindow, hwindow'] at hsame
      exact Except.ok.inj hsame

theorem current_like {res res' : Reservation} (h : res.Like res') :
    r.Current res ↔ r.Current res' := by
  rw [Current, Current, h.index, h.completed]

theorem reapHeadAfter_like {res res' : Reservation} (h : res.Like res') :
    r.reapHeadAfter res = r.reapHeadAfter res' := by
  rw [reapHeadAfter, reapHeadAfter, h.index, h.completed]

theorem setEntry_together (r : SourceRing) {res res' : Reservation} (hm : m.Alike m')
    (he : res.Like res') (busAddr cookie : Nat) :
    let out := r.setEntry m res busAddr cookie
    let out' := r.setEntry m' res' busAddr cookie
    out.1 = out'.1 ∧ out.2.1 = out'.2.1 ∧
      HostMemory.Together (r.layout.entryBytes r.head) m m' out.2.2 out'.2.2 := by
  simp only [setEntry, current_like he, reapHeadAfter_like he, he.index]
  by_cases hs : r.inAccess = false
  · simp only [hs, if_true]
    exact ⟨trivial, trivial, .inl ⟨rfl, rfl⟩⟩
  by_cases hc : ¬ r.Current res'
  · simp only [hs, hc, Bool.true_eq_false, if_false, not_false_eq_true, if_true]
    exact ⟨trivial, trivial, .inl ⟨rfl, rfl⟩⟩
  by_cases hfull : r.head = r.reapHeadAfter res'
  · simp only [hs, hc, hfull, Bool.true_eq_false, if_false, if_true]
    exact ⟨trivial, trivial, .inl ⟨rfl, rfl⟩⟩
  simp only [hs, hc, hfull, Bool.true_eq_false, if_false]
  cases RingEntry.ofFields busAddr cookie r.rbm with
  | error e => exact ⟨rfl, rfl, .inl ⟨rfl, rfl⟩⟩
  | ok entry =>
    cases haddr : r.layout.entryAddr? r.head with
    | none => exact ⟨rfl, rfl, .inl ⟨rfl, rfl⟩⟩
    | some addr =>
      obtain ⟨-, rfl⟩ := RingLayout.entryAddr?_eq_some haddr
      have hput := hm.put_together .write (r.layout.positionAddr r.head) entry.toBytes
      rw [← HostMemory.write_eq_put, ← HostMemory.write_eq_put, RingEntry.length_toBytes] at hput
      unfold RingLayout.positionAddr at hput
      simp only
      generalize m.write (r.layout.baseAddr + r.head * r.layout.entrySize) entry.toBytes = out
        at hput ⊢
      generalize m'.write (r.layout.baseAddr + r.head * r.layout.entrySize) entry.toBytes = out'
        at hput ⊢
      obtain ⟨result, after⟩ := out
      obtain ⟨result', after'⟩ := out'
      obtain ⟨rfl, htogether⟩ := hput
      cases result with
      | ok => exact ⟨rfl, rfl, htogether⟩
      | error e => exact ⟨rfl, rfl, htogether⟩

theorem SameCookies.arm (hc : r.SameCookies t m.window m'.window) (ht : r.Tracks t)
    (hl : r.layout.Inside a) {after after' : HostMemory}
    (h : HostMemory.Together (r.layout.entryBytes r.head) m m' after after') :
    r.SameCookies t after.window after'.window := by
  apply hc.of_spared
  intro k hk hka
  have harmed := ht.armed_lt
  have haccepted := ht.accepted_le
  have hpos (k : Nat) : k % r.numEntries < r.layout.numEntries :=
    Nat.mod_lt k (Nat.lt_of_lt_of_le (by decide) ht.size)
  have hne : k % r.numEntries ≠ r.head := by
    rw [ht.head]
    exact position_ne (by omega) (by omega)
  have hhead : r.head < r.layout.numEntries := ht.head ▸ hpos t.armed
  exact h.spares (RingLayout.entries_apart ht.stride hne (hl.entryAddr? (hpos k))
    (hl.entryAddr? hhead))

/-- Arming does the same on both sides, and spares the cookies of what is still pending. -/
theorem setEntry_alike {res res' : Reservation} (ht : r.Tracks t) (hl : r.layout.Inside a)
    (hm : m.Alike m') (he : res.Like res') (hc : r.SameCookies t m.window m'.window)
    (busAddr cookie : Nat) :
    let out := r.setEntry m res busAddr cookie
    let out' := r.setEntry m' res' busAddr cookie
    out.1 = out'.1 ∧ out.2.1 = out'.2.1 ∧ HostMemory.Together a m m' out.2.2 out'.2.2 ∧
      out.2.1.layout = r.layout ∧
      ∃ t', out.2.1.Tracks t' ∧ out.2.1.SameCookies t' out.2.2.window out'.2.2.window := by
  intro out out'
  obtain ⟨hresult, hring, htogether⟩ := r.setEntry_together hm he busAddr cookie
  have hpos : 0 < r.numEntries := Nat.lt_of_lt_of_le (by decide) ht.size
  have hhead : r.head < r.layout.numEntries := ht.head ▸ Nat.mod_lt _ hpos
  have hin := hl.entry hhead
  have hwords := hl.words
  have hkept := hc.arm ht hl htogether
  refine ⟨hresult, hring, htogether.mono hin.1 ?_, ?_⟩
  · simp only [RingLayout.entryBytes]
    omega
  · rcases r.setEntry_cases m res busAddr cookie with
      ⟨e, hrefused⟩ | ⟨entry, addr, -, hcur, hroom, -, -, -, harmed⟩
    · have hsame : out.2.1 = r := congrArg (fun out => out.2.1) hrefused
      rw [hsame]
      exact ⟨rfl, t, ht, hkept⟩
    · have hnext : out.2.1 = { r with reapHead := r.reapHeadAfter res, head := r.next r.head } :=
        congrArg (fun out => out.2.1) harmed
      rw [hnext]
      refine ⟨rfl, _, ht.arm hcur hroom, ?_⟩
      intro k hk hka
      exact hkept k (Nat.le_trans (Nat.le_add_right _ _) hk) hka

end SourceRing

end FrameRing
