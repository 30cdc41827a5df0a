import FrameRing.Proofs.Ring.AtRest
import FrameRing.Proofs.Ring.Discipline
import FrameRing.Proofs.SourceRing.Queue

/-! # Slots and entries in lockstep

A receive ring keeps a pair of cursors over its slots, and the source ring that it drives another
pair over its entries. Whatever is written to memory, whichever accesses fail and whatever pool and
consumer do, the two pairs agree, and between two operations the source ring is outside a section
with its own positions in order. -/

namespace FrameRing

variable {ω β : Type} {n : Nat}

/-- The hardware ring is a source ring. Each call may find another memory and may change the rest of
the world, but what it answers and what becomes of the ring is decided by that memory alone. -/
class DrivesSourceRing (p : Platform ω SourceRing Reservation β) : Prop where
  accessBegin (r : SourceRing) (w : ω) :
    ∃ m, (p.hardware.accessBegin r w).1 = (r.accessBegin m).1 ∧
      (p.hardware.accessBegin r w).2.1 = (r.accessBegin m).2
  accessEnd (r : SourceRing) (w : ω) :
    (p.hardware.accessEnd r w).1 = { r with inAccess := false }
  nextEntry (r : SourceRing) (w : ω) :
    ∃ h, (p.hardware.nextEntry r w).1 = (r.nextEntry h).1 ∧ (p.hardware.nextEntry r w).2.1 = r
  nextFreeEntry (r : SourceRing) (w : ω) :
    (p.hardware.nextFreeEntry r w).1 = r.nextFreeEntry ∧ (p.hardware.nextFreeEntry r w).2.1 = r
  setEntry (res : Reservation) (busAddr cookie : Nat) (r : SourceRing) (w : ω) :
    ∃ m, (p.hardware.setEntry res busAddr cookie r w).1 = (r.setEntry m res busAddr cookie).1 ∧
      (p.hardware.setEntry res busAddr cookie r w).2.1 = (r.setEntry m res busAddr cookie).2.1
  register (reg : Registration) (w : ω) :
    ∃ rbm m, (p.register reg w).1 = (SourceRing.create reg rbm m).1

namespace DrivesSourceRing

variable {p : Platform ω SourceRing Reservation β} [DrivesSourceRing p] {r r' : SourceRing}
  {w w' : ω}

theorem accessBegin_answer {result : Except SourceRingError Unit}
    (h : p.hardware.accessBegin r w = (result, r', w')) :
    (∃ e, result = .error e ∧ r' = r) ∨
      ∃ m tail, result = .ok () ∧ r.inAccess = false ∧ r.loadTail m = .ok tail ∧
        r' = { r with cachedTail := tail, inAccess := true } := by
  obtain ⟨m, hresult, hring⟩ := accessBegin (p := p) r w
  rw [h] at hresult hring
  rcases r.accessBegin_cases m with ⟨e, he⟩ | ⟨tail, hs, hl, he⟩
  · rw [he] at hresult hring
    exact .inl ⟨e, hresult, hring⟩
  · rw [he] at hresult hring
    exact .inr ⟨m, tail, hresult, hs, hl, hring⟩

theorem accessBegin_positions {result : Except SourceRingError Unit}
    (h : p.hardware.accessBegin r w = (result, r', w')) :
    r' = { r with cachedTail := r'.cachedTail, inAccess := r'.inAccess } := by
  rcases accessBegin_answer h with ⟨e, -, rfl⟩ | ⟨m, tail, -, -, -, rfl⟩
  · rfl
  · rfl

theorem nextEntry_answer {res : Option Reservation}
    (h : p.hardware.nextEntry r w = (res, r', w')) :
    r' = r ∧ ∀ found, res = some found → found.completed = true := by
  obtain ⟨host, hres, hring⟩ := nextEntry (p := p) r w
  rw [h] at hres hring
  refine ⟨hring, ?_⟩
  rintro found rfl
  simp only [SourceRing.nextEntry] at hres
  split at hres
  · cases hres
  split at hres
  · cases hres
  split at hres
  · cases hres
    rfl
  · cases hres

theorem nextFreeEntry_answer {res : Option Reservation}
    (h : p.hardware.nextFreeEntry r w = (res, r', w')) :
    r' = r ∧ ∀ found, res = some found → found.completed = false := by
  obtain ⟨hres, hring⟩ := nextFreeEntry (p := p) r w
  rw [h] at hres hring
  refine ⟨hring, ?_⟩
  rintro found rfl
  simp only [SourceRing.nextFreeEntry] at hres
  split at hres
  · cases hres
  · cases hres
    rfl

theorem setEntry_answer {res : Reservation} {busAddr cookie : Nat}
    {result : Except SourceRingError Unit}
    (h : p.hardware.setEntry res busAddr cookie r w = (result, r', w')) :
    (∃ e, result = .error e ∧ r' = r) ∨
      (result = .ok () ∧ r.Current res ∧ r.head ≠ r.reapHeadAfter res ∧
        r' = { r with reapHead := r.reapHeadAfter res, head := r.next r.head }) := by
  obtain ⟨m, hresult, hring⟩ := setEntry (p := p) res busAddr cookie r w
  rw [h] at hresult hring
  rcases r.setEntry_cases m res busAddr cookie with
    ⟨e, he⟩ | ⟨entry, addr, -, hcur, hroom, -, -, -, he⟩
  · rw [he] at hresult hring
    exact .inl ⟨e, hresult, hring⟩
  · rw [he] at hresult hring
    exact .inr ⟨hresult, hcur, hroom, hring⟩

end DrivesSourceRing

/-- The next entry to be armed belongs to the next slot to be armed, and the oldest entry to the
oldest slot. -/
structure Lockstep (n : Nat) (r : SourceRing) (cursor : RingCursor) : Prop where
  entries : r.numEntries = n
  slots : cursor.size = n
  next : r.head = cursor.writeIdx
  oldest : r.next r.reapHead = cursor.readIdx

namespace Lockstep

variable {r : SourceRing} {cursor : RingCursor} {res : Reservation}

theorem open_close (h : Lockstep n r cursor) (cachedTail : Nat) (inAccess : Bool) :
    Lockstep n { r with cachedTail, inAccess } cursor :=
  ⟨h.entries, h.slots, h.next, h.oldest⟩

theorem head_next (h : Lockstep n r cursor) :
    r.next r.head = cursor.advanceWrite.writeIdx := by
  rw [SourceRing.next, RingCursor.advanceWrite, h.next, h.slots, h.entries]

theorem arm_free (h : Lockstep n r cursor) (hf : res.completed = false) :
    Lockstep n { r with reapHead := r.reapHeadAfter res, head := r.next r.head }
      cursor.advanceWrite := by
  refine ⟨h.entries, h.slots, h.head_next, ?_⟩
  simp only [SourceRing.reapHeadAfter, hf, Bool.false_eq_true, if_false]
  exact h.oldest

theorem arm_completed (h : Lockstep n r cursor) (hc : r.Current res)
    (hd : res.completed = true) :
    Lockstep n { r with reapHead := r.reapHeadAfter res, head := r.next r.head }
      cursor.advanceWrite.advanceRead := by
  simp only [SourceRing.Current, hd, if_true] at hc
  refine ⟨h.entries, h.slots, h.head_next, ?_⟩
  simp only [SourceRing.reapHeadAfter, hd, if_true]
  change (res.index + 1) % r.numEntries = (cursor.readIdx + 1) % cursor.size
  rw [hc.1, h.oldest, h.slots, h.entries]

end Lockstep

variable [RxBuffer β] {p : Platform ω SourceRing Reservation β} [DrivesSourceRing p]

open DrivesSourceRing

theorem tracks_invariant (p : Platform ω SourceRing Reservation β) [DrivesSourceRing p]
    (size : Nat) : SectionInvariant p size fun r _ _ => ∃ t, SourceRing.Tracks r t := by
  constructor
  case setEntry =>
    intro res b cookie r w result r' w' held h hs
    obtain ⟨t, ht⟩ := h
    rcases setEntry_answer hs with ⟨e, -, rfl⟩ | ⟨-, hcur, hroom, rfl⟩
    · exact ⟨t, ht⟩
    · exact ⟨_, ht.arm hcur hroom⟩
  case nextEntry =>
    intro r w res r' w' held h hn
    obtain ⟨rfl, -⟩ := nextEntry_answer hn
    exact h
  case nextFreeEntry =>
    intro r w res r' w' held h hn
    obtain ⟨rfl, -⟩ := nextFreeEntry_answer hn
    exact h
  case perm => exact fun h _ => h
  case acquire => exact fun h _ => h
  case acquire_error => exact fun h _ => h
  case release => exact fun h => h
  case record => exact fun h _ => h

omit [RxBuffer β] in
theorem tracks_opened {r r' : SourceRing} {w w' : ω} {result : Except SourceRingError Unit}
    (ht : ∃ t, r.Tracks t) (h : p.hardware.accessBegin r w = (result, r', w')) :
    ∃ t, r'.Tracks t := by
  obtain ⟨t, ht⟩ := ht
  rcases accessBegin_answer h with ⟨e, -, rfl⟩ | ⟨m, tail, -, -, hl, rfl⟩
  · exact ⟨t, ht⟩
  · exact ⟨_, ht.accept hl⟩

theorem tracks_rest (p : Platform ω SourceRing Reservation β) [DrivesSourceRing p] :
    RestInvariant p (fun r _ => r.inAccess = false ∧ ∃ t, r.Tracks t)
      (fun r _ => ∃ t, SourceRing.Tracks r t) := by
  constructor
  case opened =>
    intro r w r' w' h hb
    exact tracks_opened h.2 hb
  case unopened =>
    intro r w e r' w' h hb
    rcases accessBegin_answer hb with ⟨e, -, rfl⟩ | ⟨m, tail, hok, -⟩
    · exact h
    · cases hok
  case inside => exact tracks_invariant p
  case closed =>
    intro r w h
    obtain ⟨t, ht⟩ := h
    rw [accessEnd]
    exact ⟨rfl, t, { ht with }⟩
  case buffers => exact fun r => .const p _

namespace Section

variable {s : Section ω SourceRing β} {size k : Nat} {b : β}
  {res : Reservation} {out : Except RingError Unit × Section ω SourceRing β}

theorem Placed.of_idle (ho : Placed p res b s out) (hw : s.cursor.writeIdx < s.table.capacity)
    (hidle : s.table.isArmed s.cursor.writeIdx = false) :
    (∃ e, out.1 = .error e ∧ out.2.hw = s.hw ∧ out.2.cursor = s.cursor) ∨
      (out.1 = .ok () ∧ s.hw.Current res ∧ out.2.cursor = s.cursor.advanceWrite ∧
        out.2.hw =
          { s.hw with reapHead := s.hw.reapHeadAfter res, head := s.hw.next s.hw.head }) := by
  cases ho with
  | rejected set =>
    rcases setEntry_answer set with ⟨e, he, rfl⟩ | ⟨hok, -⟩
    · exact .inl ⟨_, rfl, rfl, rfl⟩
    · cases hok
  | occupied set taken =>
    rcases taken with hout | harmed
    · omega
    · rw [hidle] at harmed
      cases harmed
  | armed set arm =>
    rcases setEntry_answer set with ⟨e, he, -⟩ | ⟨-, hcur, -, rfl⟩
    · cases he
    · exact .inr ⟨rfl, hcur, rfl, rfl⟩

/-- However an arm ends, slots and entries are in lockstep after it. -/
theorem ArmedNext.lockstep (hf : Filling n k s.table s.cursor)
    (h : Lockstep n s.hw s.cursor) (ho : ArmedNext p size s out) :
    Lockstep n out.2.hw out.2.cursor := by
  cases ho with
  | occupied => exact h
  | starved => exact h
  | full _ _ free =>
    obtain ⟨rfl, -⟩ := nextFreeEntry_answer free
    exact h
  | placed idle acquire free place =>
    obtain ⟨rfl, hfree⟩ := nextFreeEntry_answer free
    have hw : s.cursor.writeIdx < s.table.capacity := by
      rw [hf.capacity, hf.cursor_eq]
      exact hf.room
    rcases place.of_idle hw idle with ⟨e, -, hhw, hcursor⟩ | ⟨-, -, hcursor, hhw⟩
    · rw [hcursor, hhw]
      exact h
    · rw [hcursor, hhw]
      exact h.arm_free (hfree _ rfl)

theorem fill_lockstep (size : Nat) (hf : Filling n 0 s.table s.cursor)
    (h : Lockstep n s.hw s.cursor) :
    Lockstep n (s.fill p size (n - 1)).2.hw (s.fill p size (n - 1)).2.cursor := by
  have hroom := hf.room
  rcases hbegin : p.hardware.accessBegin s.hw s.world with ⟨e | _, hw, world⟩
  · have hopened := accessBegin_positions hbegin
    simp only [fill, hbegin]
    rw [hopened]
    exact h.open_close _ _
  · have hopened := accessBegin_positions hbegin
    have hmany := armMany_rule (p := p) size (n - 1)
      (P := fun j s => ∃ k, k + j + 1 = n ∧ Filling n k s.table s.cursor ∧
        Lockstep n s.hw s.cursor)
      (F := fun _ s => Lockstep n s.hw s.cursor) (s := { s with hw, world })
      (by
        rintro j s out ⟨k, hk, hf, hl⟩ ho
        have hlock := ho.lockstep hf hl
        rcases armNext_filling hf (by omega) ho with ⟨ok, hf⟩ | ⟨e, he, -⟩
        · exact .inl ⟨ok, k + 1, by omega, hf, hlock⟩
        · exact .inr ⟨e, he, hlock⟩)
      ⟨0, by omega, hf, by rw [hopened]; exact h.open_close _ _⟩
    simp only [fill, hbegin, close, accessEnd]
    rcases hmany with ⟨-, k, -, -, hl⟩ | ⟨e, -, hl⟩
    · exact hl.open_close _ _
    · exact hl.open_close _ _

end Section

namespace Pass

variable {s : Pass ω SourceRing β} {size remaining : Nat} {out : PassStep × Pass ω SourceRing β}

/-- However a step of a pass ends, slots and entries are in lockstep after it. -/
theorem Stepped.lockstep (hr : Rotation n s.table s.cursor) (h : Lockstep n s.hw s.cursor)
    (ho : Stepped p size remaining s out) : Lockstep n out.2.hw out.2.cursor := by
  cases ho with
  | missing next =>
    obtain ⟨rfl, -⟩ := nextEntry_answer next
    exact h
  | found next recycle =>
    obtain ⟨rfl, hfound⟩ := nextEntry_answer next
    have hw : s.cursor.writeIdx < s.table.capacity := hr.capacity.symm ▸ hr.write_lt
    cases recycle with
    | desync => exact h
    | occupied => exact h
    | starved => exact h
    | @refused buf w e armed _ idle _ place =>
      rcases place.of_idle hw idle with ⟨e, -, hhw, hcursor⟩ | ⟨hok, -⟩
      · change armed.hw = s.hw at hhw
        change armed.cursor = s.cursor at hcursor
        change Lockstep n armed.hw armed.cursor
        rw [hhw, hcursor]
        exact h
      · cases hok
    | lost _ _ _ place gone =>
      cases place with
      | armed _ arm => exact absurd gone (by simp [RingCursor.advanceWrite, hr.due_of_arm arm])
    | @renewed buf w armed old table _ idle _ place =>
      rcases place.of_idle hw idle with ⟨e, he, -⟩ | ⟨-, hcur, hcursor, hhw⟩
      · cases he
      · change armed.hw = _ at hhw
        change armed.cursor = _ at hcursor
        change Lockstep n armed.hw armed.cursor.advanceRead
        rw [hhw, hcursor]
        exact h.arm_completed hcur (hfound _ rfl)

end Pass

namespace Ring

/-- Slots and cursors are as the state says, and until it is released a ring holds a hardware ring
in lockstep with them and at rest. -/
structure Paced (n : Nat) (ring : Ring SourceRing β) : Prop where
  disciplined : Disciplined n ring
  lockstep : ∀ r, ring.hw = some r → Lockstep n r ring.cursor
  resting : ∀ r, ring.hw = some r → r.inAccess = false ∧ ∃ t, r.Tracks t
  held : ring.state ≠ .released → ∃ r, ring.hw = some r

variable {ring : Ring SourceRing β} {w w' : ω}

omit [RxBuffer β] in
theorem setup_paced {params : RingParams}
    (h : Ring.setup p params w = (.ok ring, w')) :
    2 ≤ params.capacity ∧ ring.Paced params.capacity := by
  obtain ⟨hn, hdisciplined⟩ := setup_disciplined h
  obtain ⟨valid, -, a, w₁, r, w₂, -, -, hregister, -, rfl⟩ := setup_eq_ok h
  obtain ⟨rbm, m, hcreate⟩ := register (p := p) (params.registration a.addr) w₁
  have hcreated : (SourceRing.create (params.registration a.addr) rbm m).1 = .ok r := by
    rw [← hcreate, hregister]
  obtain ⟨-, hlayout, hshape⟩ := SourceRing.create_shape hcreated
  obtain ⟨htracks, hentries⟩ := SourceRing.Tracks.of_create hcreated
  refine ⟨hn, hdisciplined, ?_, ?_, fun _ => ⟨r, rfl⟩⟩
  · intro r' hr
    cases hr
    refine ⟨hentries, rfl, ?_, ?_⟩
    · rw [hshape]
      rfl
    · have hlast : r.reapHead = params.capacity - 1 := by rw [hshape]; rfl
      have hsize : r.numEntries = params.capacity := hentries
      rw [SourceRing.next, hlast, hsize, Nat.sub_add_cancel (by omega), Nat.mod_self]
      rfl
  · intro r' hr
    cases hr
    exact ⟨by rw [hshape], _, htracks⟩

omit [RxBuffer β] [DrivesSourceRing p] in
theorem Paced.releaseAll (h : ring.Paced n) (w : ω) : (ring.releaseAll p w).1.Paced n := by
  have hdisciplined := releaseAll_disciplined (p := p) h.disciplined w
  by_cases hs : ring.state = .released
  · rw [Ring.releaseAll, if_pos hs]
    exact h
  · have hgone : (ring.releaseAll p w).1.hw = none := by rw [Ring.releaseAll, if_neg hs]
    constructor
    · exact hdisciplined
    · intro r hr
      cases hgone.symm.trans hr
    · intro r hr
      cases hgone.symm.trans hr
    · exact fun hne => absurd (releaseAll_state ring w) hne

theorem Paced.attach (h : ring.Paced n) (hn : 2 ≤ n) (w : ω) :
    (ring.attach p w).2.1.Paced n := by
  have hdisciplined := (attach_disciplined (p := p) h.disciplined hn w).1
  have hrest := AtRest.attach (w := w) (tracks_rest p) h.resting
  have hout := attached p ring w
  generalize ring.attach p w = out at hdisciplined hrest hout ⊢
  cases hout with
  | again => exact h
  | refused => exact h
  | @failed r e s' ready held fill =>
    have hne : (ring.leave s').state ≠ .released := by simp [leave, ready]
    have hgone : ((ring.leave s').releaseAll p
        (p.record (.attachFailed s'.cursor.writeIdx e) s'.world)).1.hw = none := by
      rw [Ring.releaseAll, if_neg hne]
    refine ⟨hdisciplined, ?_, hrest, ?_⟩
    · intro r hr
      cases hgone.symm.trans hr
    · exact fun hstate => absurd (releaseAll_state _ _) hstate
  | @filled r s' ready held fill =>
    have hf := h.disciplined.filling ready
    have hlock := Section.fill_lockstep (p := p) (s := ring.enter r w) ring.geometry.bufferSize hf
      (h.lockstep r held)
    rw [← hf.capacity, fill, hf.capacity] at hlock
    refine ⟨hdisciplined, ?_, hrest, fun _ => ⟨_, rfl⟩⟩
    intro r' hr
    cases hr
    exact hlock

theorem Paced.tryReap (h : ring.Paced n) (w : ω) : (ring.tryReap p w).2.1.Paced n := by
  have hdisciplined := (tryReap_disciplined (p := p) h.disciplined w).1
  have hrest := AtRest.tryReap (w := w) (tracks_rest p) h.resting
  have hout := reaped p ring w
  generalize ring.tryReap p w = out at hdisciplined hrest hout ⊢
  cases hout with
  | refused => exact h
  | @unopened r e r' w' active held access =>
    refine ⟨hdisciplined, ?_, hrest, fun _ => ⟨_, rfl⟩⟩
    intro r₁ hr
    cases hr
    rw [accessBegin_positions access]
    exact (h.lockstep r held).open_close _ _
  | @drained r r' w' result pass closed w'' k ring' out active held access drain hc hd =>
    have hrot := h.disciplined.rotation active
    have hopened : Lockstep n r' ring.cursor := by
      rw [accessBegin_positions access]
      exact (h.lockstep r held).open_close _ _
    have hdrain := Pass.drain_rule (p := p) ring.geometry.bufferSize
      (p.hardware.availableCount r' w')
      (P := fun s => Rotation n s.table s.cursor ∧ Lockstep n s.hw s.cursor) (F := fun _ => True)
      (fun k s out hs ho =>
        ⟨⟨(Pass.step_rotation hs.1 ho).1, ho.lockstep hs.1 hs.2⟩, fun _ _ => trivial⟩)
      (s := ⟨ring.enter r' w', ring.stats, []⟩) ⟨hrot, hopened⟩
    rw [drain] at hdrain
    have hclosed : (pass.close p).hw = { pass.hw with inAccess := false } := accessEnd _ _
    obtain ⟨state, stats, rfl⟩ := concluded hc hd
    refine ⟨hdisciplined, ?_, hrest, fun _ => ⟨_, rfl⟩⟩
    intro r₁ hr
    cases hr
    rw [hclosed]
    exact hdrain.1.2.open_close _ _

/-- Whatever goes on around a ring, its cursors stay together. -/
theorem Paced.perform (h : ring.Paced n) (hn : 2 ≤ n) (w : ω) (op : Operation) :
    (ring.perform p w op).1.Paced n := by
  cases op with
  | attach => exact h.attach hn w
  | tryReap => exact h.tryReap w
  | reap =>
    rw [Ring.perform, reap_ring]
    exact h.tryReap w
  | release => exact h.releaseAll w

theorem run_paced (h : ring.Paced n) (hn : 2 ≤ n) (moves : List (Move ω)) :
    (Ring.run p (ring, w) moves).1.Paced n :=
  run_induct (P := fun ring _ => ring.Paced n) h (fun _ w op hp => hp.perform hn w op)
    (fun _ _ _ hp => hp) moves

end Ring

end FrameRing
