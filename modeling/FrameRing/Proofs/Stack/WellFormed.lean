import FrameRing.Proofs.SourceRing.Soundness
import FrameRing.Proofs.Stack.Holdings

/-! # What a ring can fail for

Whatever the device stores and whichever accesses fail, a ring at work finds its slots idle, its
reservations current and its cookies in range, so that it fails only for what lies outside the
host's own state. Every section that it opens it closes. -/

namespace FrameRing

variable {base capacity rbm n size k : Nat} {rest : List Allocation} {a : Allocation}

/-- Failures of an attach that have their cause outside the ring, and refusals by its state. -/
def RingError.surfacesFromAttach : RingError → Bool
  | .allocation .outOfMemory | .alreadyAttached | .faulted | .released => true
  | .hardware cause => cause.isExternal
  | _ => false

def RingError.surfacesFromReap : RingError → Bool
  | .desync .. | .notAttached | .faulted | .released => true
  | .hardware cause => cause.isExternal
  | _ => false

theorem RingError.surfacesFromReap_of_refusal {e : RingError} (h : e.isRefusal = true) :
    e.surfacesFromReap = true := by
  cases e <;> simp_all [isRefusal, surfacesFromReap]

theorem RingError.surfacesFromAttach_of_refusal {e : RingError} (h : e.isRefusal = true)
    (hne : e ≠ .notAttached) : e.surfacesFromAttach = true := by
  cases e <;> simp_all [isRefusal, surfacesFromAttach]

def DmaBuffer.Fits (size : Nat) (b : DmaBuffer) : Prop :=
  b.size = size ∧ size ≤ b.allocation.len

namespace Scene

variable {s s' : Scene} {live : List Allocation}

theorem Keeps.acquire_fits (h : s.Keeps base capacity live) {b : DmaBuffer}
    (ha : s.call (World.acquire size) = (.ok b, s')) : b.Fits size := by
  simp only [call] at ha
  rcases hw : World.acquire size s.turn.world with ⟨e | b', world⟩
  · simp only [hw] at ha
    cases ha
  · simp only [hw] at ha
    cases ha
    obtain ⟨slab, -, -, -, hsize, hlen⟩ := World.acquire_eq_ok h.turn.toOwns hw
    exact ⟨hsize, hlen⟩

theorem Keeps.alloc_len (h : s.Keeps base capacity live) {len : Nat}
    (ha : s.call (World.alloc len) = (.ok a, s')) : len ≤ a.len := by
  simp only [call] at ha
  rcases hw : World.alloc len s.turn.world with ⟨e | a', world⟩
  · simp only [hw] at ha
    cases ha
  · simp only [hw] at ha
    cases ha
    obtain ⟨slab, -, -, -, hlen⟩ := World.alloc_eq_ok h.turn.toOwns hw
    exact hlen

theorem Keeps.acquire_dry (h : s.Keeps base capacity live) (hsize : 0 < size) {e : AllocError}
    (ha : s.call (World.acquire size) = (.error e, s')) : e = .outOfMemory := by
  simp only [call] at ha
  rcases hw : World.acquire size s.turn.world with ⟨e | b', world⟩
  · simp only [hw] at ha
    cases ha
    rcases (World.acquire_eq_error h.turn.toSound hw).2 with hzero | hdry
    · omega
    · exact hdry
  · simp only [hw] at ha
    cases ha

structure InSection (base capacity : Nat) (rest : List Allocation) (a : Allocation) (size : Nat)
    (r : SourceRing) (s : Scene) (held : List DmaBuffer) : Prop where
  account : s.Account base capacity rest (some a) held
  opened : r.inAccess = true
  sound : r.Sound a
  fits : ∀ b ∈ held, b.Fits size

theorem inSection_invariant (rbm base capacity : Nat) (rest : List Allocation) (a : Allocation)
    (size : Nat) :
    SectionInvariant (platform rbm) size (InSection base capacity rest a size) := by
  have K := platform_custody rbm base capacity rest
  have B := K.buffers (some a)
  constructor
  case perm =>
    intro r s held held' h hp
    exact ⟨B.perm h.account hp, h.opened, h.sound,
      fun b hb => h.fits b (hp.mem_iff.mpr hb)⟩
  case acquire =>
    intro r s b s' held h ha
    refine ⟨B.acquire h.account ha, h.opened, h.sound, ?_⟩
    intro b' hb
    rcases List.mem_cons.mp hb with rfl | hb
    · exact Keeps.acquire_fits h.account ha
    · exact h.fits b' hb
  case acquire_error =>
    intro r s e s' held h ha
    exact ⟨B.acquire_error h.account ha, h.opened, h.sound, h.fits⟩
  case release =>
    intro r s b held h
    exact ⟨B.release h.account, h.opened, h.sound,
      fun b' hb => h.fits b' (List.mem_cons_of_mem b hb)⟩
  case record =>
    intro r s held event h he
    exact ⟨B.record h.account he, h.opened, h.sound, h.fits⟩
  case nextEntry =>
    intro r s entry r' s' held h hn
    obtain ⟨rfl, -⟩ := DrivesSourceRing.nextEntry_answer hn
    exact ⟨K.nextEntry h.account hn, h.opened, h.sound, h.fits⟩
  case nextFreeEntry =>
    intro r s entry r' s' held h hn
    obtain ⟨rfl, -⟩ := DrivesSourceRing.nextFreeEntry_answer hn
    exact ⟨K.nextFreeEntry h.account hn, h.opened, h.sound, h.fits⟩
  case setEntry =>
    intro entry b cookie r s result r' s' held h hs
    have haccount := K.setEntry h.account hs
    obtain ⟨hopened, hsound⟩ :=
      h.sound.setEntry (m := s.turn.world.host.memory) entry (RxBuffer.busAddr b) cookie
    cases hs
    exact ⟨haccount, hopened.trans h.opened, hsound, h.fits⟩

theorem inSection_begin {r r' : SourceRing} {result : Except SourceRingError Unit}
    {held : List DmaBuffer} (hclosed : r.inAccess = false) (hsound : r.Sound a)
    (haccount : s.Account base capacity rest (some a) held) (hfits : ∀ b ∈ held, b.Fits size)
    (hb : (platform rbm).hardware.accessBegin r s = (result, r', s')) :
    (∃ e, result = .error e ∧ r' = r ∧ e.isExternal = true) ∨
      result = .ok () ∧ InSection base capacity rest a size r' s' held := by
  have hkept := (platform_custody rbm base capacity rest).accessBegin haccount hb
  rcases hbegin : r.accessBegin s.turn.world.host.memory with ⟨e | _, r''⟩
  · simp only [platform, SourceRing.hardware, hbegin] at hb
    cases hb
    obtain ⟨hsame, he⟩ := SourceRing.accessBegin_error hclosed hbegin
    exact .inl ⟨e, rfl, hsame, he⟩
  · simp only [platform, SourceRing.hardware, hbegin] at hb
    cases hb
    obtain ⟨hopened, hsound'⟩ := hsound.open_ok hbegin
    exact .inr ⟨rfl, hkept, hopened, hsound', hfits⟩

end Scene

theorem Lockstep.room {r : SourceRing} {cursor : RingCursor} (h : Lockstep n r cursor)
    (hne : cursor.advanceWrite.writeIdx ≠ cursor.readIdx) : r.head ≠ r.reapHead := by
  intro hfull
  apply hne
  rw [← h.head_next, hfull, h.oldest]

namespace Section

variable {s : Section Scene SourceRing DmaBuffer} {b : DmaBuffer} {res : Reservation}
  {out : Except RingError Unit × Section Scene SourceRing DmaBuffer} {e : RingError}

/-- An idle slot and a current reservation are armed, or the cause lies outside. -/
theorem Placed.surfaces (ho : Placed (Scene.platform rbm) res b s out)
    (hcookie : s.cursor.writeIdx < 1 <<< 21) (hw : s.cursor.writeIdx < s.table.capacity)
    (hidle : s.table.isArmed s.cursor.writeIdx = false) (hopen : s.hw.inAccess = true)
    (hsound : s.hw.Sound a) (hcur : s.hw.Current res)
    (hroom : s.hw.head ≠ s.hw.reapHeadAfter res) (he : out.1 = .error e) :
    ∃ cause, e = .hardware cause ∧ cause.isExternal = true := by
  cases ho with
  | @rejected cause _ _ set =>
    cases he
    have hrefused : (s.hw.setEntry s.world.turn.world.host.memory res (RxBuffer.busAddr b)
        s.cursor.writeIdx).1 = .error cause := congrArg Prod.fst set
    exact ⟨cause, rfl, hsound.setEntry_error hopen hcur hroom hcookie hrefused⟩
  | occupied set taken =>
    rcases taken with hout | harmed
    · omega
    · rw [hidle] at harmed
      cases harmed
  | armed => cases he

theorem ArmedNext.surfaces (hf : Filling n k s.table s.cursor) (hk : k + 1 < n)
    (hn : n ≤ 1 <<< 21) (hl : Lockstep n s.hw s.cursor) (hsize : 0 < size)
    (h : Scene.InSection base capacity rest a size s.hw s.world s.table.buffers)
    (ho : ArmedNext (Scene.platform rbm) size s out) (he : out.1 = .error e) :
    e.surfacesFromAttach = true := by
  have hwrite : s.cursor.writeIdx = k := by rw [hf.cursor_eq]
  have hroom : s.hw.head ≠ s.hw.reapHead := by
    apply hl.room
    rw [hf.cursor_eq, RingCursor.advanceWrite]
    simp only
    rw [Nat.mod_eq_of_lt hk]
    omega
  cases ho with
  | occupied taken =>
    rw [hf.armed, hwrite] at taken
    omega
  | starved idle acquire =>
    cases he
    cases Scene.Keeps.acquire_dry h.account hsize acquire
    rfl
  | full idle acquire free =>
    have hnone : s.hw.nextFreeEntry = none := congrArg Prod.fst free
    rw [(SourceRing.nextFreeEntry_eq_some h.opened hroom).1] at hnone
    cases hnone
  | @placed _ _ res _ _ _ idle acquire free place =>
    obtain ⟨rfl, -⟩ := DrivesSourceRing.nextFreeEntry_answer free
    have hsome : s.hw.nextFreeEntry = some res := congrArg Prod.fst free
    obtain ⟨-, hfree, hcur, -⟩ := SourceRing.nextFreeEntry_current hsome
    have hafter : s.hw.reapHeadAfter res = s.hw.reapHead := by
      simp only [SourceRing.reapHeadAfter, hfree, Bool.false_eq_true, if_false]
    have hcap : s.cursor.writeIdx < s.table.capacity := by
      rw [hf.capacity, hwrite]
      exact hf.room
    have hcookie : s.cursor.writeIdx < 1 <<< 21 := by omega
    obtain ⟨cause, rfl, hcause⟩ := place.surfaces (a := a) hcookie hcap idle h.opened h.sound
      hcur (by rwa [hafter]) he
    exact hcause

end Section

namespace Pass

variable {s : Pass Scene SourceRing DmaBuffer} {remaining : Nat}
  {out : PassStep × Pass Scene SourceRing DmaBuffer} {e : RingError}

theorem Stepped.surfaces (hr : Rotation n s.table s.cursor) (hn : n ≤ 1 <<< 21)
    (h : Scene.InSection base capacity rest a size s.hw s.world s.held)
    (ho : Stepped (Scene.platform rbm) size remaining s out) (he : out.1 = .fail e) :
    e.surfacesFromReap = true := by
  cases ho with
  | missing => cases he
  | @found res _ _ _ next recycle =>
    obtain ⟨rfl, -⟩ := DrivesSourceRing.nextEntry_answer next
    have hsome : (s.hw.nextEntry s.world.turn.world.host).1 = some res := congrArg Prod.fst next
    obtain ⟨-, hdone, hcur⟩ := SourceRing.nextEntry_current hsome
    cases recycle with
    | desync =>
      cases he
      rfl
    | occupied due taken =>
      have hidle := hr.write_idle
      cases taken.symm.trans hidle
    | starved => cases he
    | refused due idle acquire place =>
      cases he
      obtain ⟨t, ht⟩ := h.sound.tracks
      have hw := hr.write_lt
      have hcap : s.cursor.writeIdx < s.table.capacity := hr.capacity.symm ▸ hw
      obtain ⟨cause, rfl, hcause⟩ := place.surfaces (a := a) (Nat.lt_of_lt_of_le hw hn) hcap idle
        h.opened h.sound hcur (ht.room_of_completed hcur hdone) rfl
      exact hcause
    | lost =>
      cases he
      rfl
    | renewed => cases he

end Pass

theorem Section.fill_wellFormed {s : Section Scene SourceRing DmaBuffer}
    (hf : Filling n 0 s.table s.cursor) (hn : 2 ≤ n) (hcookies : n ≤ 1 <<< 21)
    (hl : Lockstep n s.hw s.cursor) (hsize : 0 < size) (hclosed : s.hw.inAccess = false)
    (hsound : s.hw.Sound a)
    (haccount : s.world.Account base capacity rest (some a) s.table.buffers)
    (hfits : ∀ b ∈ s.table.buffers, b.Fits size) {result : Except RingError Unit}
    {s' : Section Scene SourceRing DmaBuffer}
    (hfill : s.fill (Scene.platform rbm) size (n - 1) = (result, s')) :
    s'.hw.inAccess = false ∧ s'.hw.Sound a ∧ (∀ b ∈ s'.table.buffers, b.Fits size) ∧
      ∀ e, result = .error e → e.surfacesFromAttach = true := by
  rcases hb : (Scene.platform rbm).hardware.accessBegin s.hw s.world with ⟨begun, hw, world⟩
  have hl' : Lockstep n hw s.cursor := by
    rw [DrivesSourceRing.accessBegin_positions hb]
    exact hl.open_close _ _
  rcases Scene.inSection_begin hclosed hsound haccount hfits hb with
    ⟨e, rfl, rfl, he⟩ | ⟨rfl, hin⟩
  · simp only [fill, hb] at hfill
    cases hfill
    refine ⟨hclosed, hsound, hfits, ?_⟩
    intro e' hresult
    cases hresult
    exact he
  · have K := Scene.inSection_invariant rbm base capacity rest a size
    have hmany := armMany_rule (p := Scene.platform rbm) size (n - 1)
      (P := fun j s => (∃ k, k + j + 1 = n ∧ Filling n k s.table s.cursor ∧
        Lockstep n s.hw s.cursor) ∧
          Scene.InSection base capacity rest a size s.hw s.world s.table.buffers)
      (F := fun e s => e.surfacesFromAttach = true ∧
          Scene.InSection base capacity rest a size s.hw s.world s.table.buffers)
      (s := { s with hw, world })
      (by
        rintro j s out ⟨⟨k, hk, hf, hl⟩, hin⟩ ho
        have hin' := ho.invariant K hin
        rcases armNext_filling hf (by omega) ho with ⟨ok, hf'⟩ | ⟨e, he, -⟩
        · exact .inl ⟨ok, ⟨k + 1, by omega, hf', ho.lockstep hf hl⟩, hin'⟩
        · exact .inr ⟨e, he, ho.surfaces hf (by omega) hcookies hl hsize hin he, hin'⟩)
      ⟨⟨0, by omega, hf, hl'⟩, hin⟩
    simp only [fill, hb] at hfill
    cases hfill
    simp only [close, DrivesSourceRing.accessEnd]
    rcases hmany with ⟨hok, -, hend⟩ | ⟨e, he, hsurfaces, hend⟩
    · refine ⟨trivial, hend.sound.close, hend.fits, ?_⟩
      intro e he
      cases hok.symm.trans he
    · refine ⟨trivial, hend.sound.close, hend.fits, ?_⟩
      intro e' he'
      cases he.symm.trans he'
      exact hsurfaces

theorem Pass.drain_wellFormed {s : Pass Scene SourceRing DmaBuffer}
    (hr : Rotation n s.table s.cursor) (hcookies : n ≤ 1 <<< 21)
    (h : Scene.InSection base capacity rest a size s.hw s.world s.held) {count : Nat}
    {result : Except RingError Unit} {pass : Pass Scene SourceRing DmaBuffer}
    (drain : s.drain (Scene.platform rbm) size count = (result, pass)) :
    (pass.close (Scene.platform rbm)).hw.inAccess = false ∧
      (pass.close (Scene.platform rbm)).hw.Sound a ∧ (∀ b ∈ pass.table.buffers, b.Fits size) ∧
      ∀ e, result = .error e → e.surfacesFromReap = true := by
  have K := Scene.inSection_invariant rbm base capacity rest a size
  have hdrain := drain_rule (p := Scene.platform rbm) size count
    (P := fun s => Rotation n s.table s.cursor ∧
      Scene.InSection base capacity rest a size s.hw s.world s.held)
    (F := fun e => e.surfacesFromReap = true)
    (fun k s out hs ho => ⟨⟨(step_rotation hs.1 ho).1, ho.invariant K hs.2⟩,
      fun e he => ho.surfaces hs.1 hcookies hs.2 he⟩)
    ⟨hr, h⟩
  rw [drain] at hdrain
  obtain ⟨⟨-, hend⟩, hsurfaces⟩ := hdrain
  simp only [Section.close, DrivesSourceRing.accessEnd]
  refine ⟨trivial, hend.sound.close, ?_, hsurfaces⟩
  intro b hb
  exact hend.fits b (List.mem_append_left _ hb)

namespace Ring

variable {ring : Ring SourceRing DmaBuffer} {s s' : Scene}

/-- A ring between two operations: its cursors are in order, its hardware ring is sound and outside
of a section, and every buffer in its slots has the size that was asked for. -/
structure WellFormed (ring : Ring SourceRing DmaBuffer) : Prop where
  two_le : 2 ≤ ring.geometry.capacity
  cookies : ring.geometry.capacity ≤ 1 <<< 21
  header : FrameHeader.size < ring.geometry.bufferSize
  paced : ring.Paced ring.geometry.capacity
  hardware : ∀ r, ring.hw = some r →
    r.inAccess = false ∧ ∃ a, ring.ringMem = some a ∧ r.Sound a
  fits : ∀ b ∈ ring.table.buffers, b.Fits ring.geometry.bufferSize

theorem setup_wellFormed {params : RingParams} {live : List Allocation}
    (hk : s.Keeps base capacity live)
    (hs : Ring.setup (Scene.platform rbm) params s = (.ok ring, s')) :
    ring.WellFormed := by
  obtain ⟨hn, hpaced⟩ := setup_paced hs
  obtain ⟨valid, -, a, s₁, r, s₂, alloc, -, register, -, rfl⟩ := setup_eq_ok hs
  obtain ⟨-, -, -, hheader, -⟩ := RingParams.validate_eq_ok valid
  refine ⟨hn, RingParams.capacity_le valid, hheader, hpaced, ?_, ?_⟩
  · intro r' hr
    cases hr
    have hkept := Scene.Keeps.alloc hk alloc
    have hin := hkept.toOwns.within (a := a) (by simp)
    have hlim := hkept.toOwns.limit
    have hcreated : (SourceRing.create (params.registration a.addr) rbm
        s₁.turn.world.host.memory).1 = .ok r := congrArg Prod.fst register
    obtain ⟨hclosed, hsound⟩ := SourceRing.sound_created hcreated rfl
      (Scene.Keeps.alloc_len hk alloc) (Nat.le_trans hin.2 hlim)
    exact ⟨hclosed, a, rfl, hsound⟩
  · intro b hb
    rw [SlotTable.buffers_withCapacity] at hb
    cases hb

theorem wellFormed_of_releaseAll (hs : ring.state ≠ .released) (hn : 2 ≤ ring.geometry.capacity)
    (hcookies : ring.geometry.capacity ≤ 1 <<< 21)
    (hheader : FrameHeader.size < ring.geometry.bufferSize)
    (hpaced : (ring.releaseAll (Scene.platform rbm) s).1.Paced ring.geometry.capacity) :
    (ring.releaseAll (Scene.platform rbm) s).1.WellFormed := by
  rw [releaseAll, if_neg hs] at hpaced ⊢
  refine ⟨hn, hcookies, hheader, hpaced, ?_, ?_⟩
  · intro r hr
    cases hr
  · intro b hb
    cases hb

theorem WellFormed.releaseAll (h : ring.WellFormed) (s : Scene) :
    (ring.releaseAll (Scene.platform rbm) s).1.WellFormed := by
  by_cases hs : ring.state = .released
  · rw [Ring.releaseAll, if_pos hs]
    exact h
  · exact wellFormed_of_releaseAll hs h.two_le h.cookies h.header (h.paced.releaseAll s)

/-- An attach keeps the ring well formed, and what it fails for has its cause outside. -/
theorem WellFormed.attach (h : ring.WellFormed)
    (ha : s.Account base capacity rest ring.ringMem ring.table.buffers) :
    (ring.attach (Scene.platform rbm) s).2.1.WellFormed ∧
      ∀ e, (ring.attach (Scene.platform rbm) s).1 = .error e → e.surfacesFromAttach = true := by
  have hpaced : (ring.attach (Scene.platform rbm) s).2.1.Paced ring.geometry.capacity :=
    h.paced.attach h.two_le s
  have hout := attached (Scene.platform rbm) ring s
  have hfilled {r : SourceRing} {result : Except RingError Unit}
      {s' : Section Scene SourceRing DmaBuffer} (ready : ring.state = .ready)
      (held : ring.hw = some r) (fill : (ring.enter r s).fill (Scene.platform rbm)
        ring.geometry.bufferSize (ring.table.capacity - 1) = (result, s')) :
      ∃ a, ring.ringMem = some a ∧ s'.hw.inAccess = false ∧ s'.hw.Sound a ∧
        (∀ b ∈ s'.table.buffers, b.Fits ring.geometry.bufferSize) ∧
        ∀ e, result = .error e → e.surfacesFromAttach = true := by
    obtain ⟨hclosed, a, hmem, hsound⟩ := h.hardware r held
    have hf := h.paced.disciplined.filling ready
    rw [hf.capacity] at fill
    rw [hmem] at ha
    exact ⟨a, hmem, Section.fill_wellFormed (s := ring.enter r s) hf h.two_le h.cookies
      (h.paced.lockstep r held) (Nat.zero_lt_of_lt h.header) hclosed hsound ha h.fits fill⟩
  generalize ring.attach (Scene.platform rbm) s = out at hpaced hout ⊢
  cases hout with
  | again =>
    refine ⟨h, ?_⟩
    intro e he
    cases he
    rfl
  | @refused e refusal unreaped =>
    refine ⟨h, ?_⟩
    intro e' he
    cases he
    exact RingError.surfacesFromAttach_of_refusal refusal unreaped
  | @failed r e s' ready held fill =>
    obtain ⟨a, hmem, -, -, -, hsurfaces⟩ := hfilled ready held fill
    have hstate : (ring.leave s').state ≠ .released := by simp [leave, ready]
    refine ⟨wellFormed_of_releaseAll hstate h.two_le h.cookies h.header hpaced, ?_⟩
    intro e' he
    cases he
    exact hsurfaces e rfl
  | @filled r s' ready held fill =>
    obtain ⟨a, hmem, hclosed, hsound, hfits, -⟩ := hfilled ready held fill
    refine ⟨⟨h.two_le, h.cookies, h.header, hpaced, ?_, hfits⟩, ?_⟩
    · intro r' hr
      cases hr
      exact ⟨hclosed, a, hmem, hsound⟩
    · intro e he
      cases he

theorem WellFormed.tryReap (h : ring.WellFormed)
    (ha : s.Account base capacity rest ring.ringMem ring.table.buffers) :
    (ring.tryReap (Scene.platform rbm) s).2.1.WellFormed ∧
      ∀ e, (ring.tryReap (Scene.platform rbm) s).1 = .error e → e.surfacesFromReap = true := by
  have hpaced : (ring.tryReap (Scene.platform rbm) s).2.1.Paced ring.geometry.capacity :=
    h.paced.tryReap s
  have hout := reaped (Scene.platform rbm) ring s
  generalize ring.tryReap (Scene.platform rbm) s = out at hpaced hout ⊢
  cases hout with
  | refused refusal =>
    refine ⟨h, ?_⟩
    intro e he
    cases he
    exact RingError.surfacesFromReap_of_refusal refusal
  | @unopened r e r' s' active held access =>
    obtain ⟨hclosed, a, hmem, hsound⟩ := h.hardware r held
    rw [hmem] at ha
    rcases Scene.inSection_begin hclosed hsound ha h.fits access with
      ⟨e', he, rfl, hexternal⟩ | ⟨hok, -⟩
    · cases he
      refine ⟨⟨h.two_le, h.cookies, h.header, hpaced, ?_, h.fits⟩, ?_⟩
      · intro r₁ hr
        cases hr
        exact ⟨hclosed, a, hmem, hsound⟩
      · intro e he
        cases he
        exact hexternal
    · cases hok
  | @drained r r' s' result pass closed s'' k ring' out active held access drain hc hd =>
    obtain ⟨hclosed, a, hmem, hsound⟩ := h.hardware r held
    rw [hmem] at ha
    rcases Scene.inSection_begin hclosed hsound ha h.fits access with ⟨e, he, -⟩ | ⟨-, hin⟩
    · cases he
    have hrot := h.paced.disciplined.rotation active
    have K := Scene.inSection_invariant rbm base capacity rest a ring.geometry.bufferSize
    obtain ⟨hsealed, hsound', hfits, hsurfaces⟩ := Pass.drain_wellFormed
      (s := ⟨ring.enter r' s', ring.stats, []⟩) hrot h.cookies
      (K.perm hin (by simp [Pass.held, enter])) drain
    have hhardware : ∀ r₁, some (pass.close (Scene.platform rbm)).hw = some r₁ →
        r₁.inAccess = false ∧ ∃ a, ring.ringMem = some a ∧ r₁.Sound a := by
      intro r₁ hr
      cases hr
      exact ⟨hsealed, a, hmem, hsound'⟩
    obtain ⟨state, stats, rfl⟩ := concluded hc hd
    refine ⟨⟨h.two_le, h.cookies, h.header, hpaced, hhardware, hfits⟩, ?_⟩
    intro e he
    cases result with
    | ok => cases he
    | error cause =>
      cases he
      exact hsurfaces e rfl

theorem WellFormed.perform (h : ring.WellFormed)
    (ha : s.Account base capacity rest ring.ringMem ring.table.buffers) (op : Operation) :
    (ring.perform (Scene.platform rbm) s op).1.WellFormed := by
  cases op with
  | attach => exact (h.attach ha).1
  | tryReap => exact (h.tryReap ha).1
  | reap =>
    rw [Ring.perform, reap_ring]
    exact (h.tryReap ha).1
  | release => exact h.releaseAll s

end Ring

end FrameRing
