import FrameRing.Proofs.SourceRing.Arming

/-! # What an entry holds of what it is given

Address and cookie are checked before they are packed, so an entry holds them as they are or there
is no entry. The return buffer manager is cut to its three bits without a check: it is the one value
that an entry may hold changed. -/

namespace FrameRing

namespace EntryWords

variable {a : UInt64} {c : UInt32}

theorem ofBytes_toBytes (w : EntryWords) : ofBytes w.toBytes = w := by
  have htake : w.toBytes.take 4 = LittleEndian.encode 4 w.low.toNat :=
    List.take_left' (LittleEndian.length_encode 4 _)
  have hdrop : w.toBytes.drop 4 = LittleEndian.encode 4 w.info.toNat :=
    List.drop_left' (LittleEndian.length_encode 4 _)
  have hword (x : UInt32) : LittleEndian.decode (LittleEndian.encode 4 x.toNat) = x.toNat := by
    rw [LittleEndian.decode_encode]
    exact Nat.mod_eq_of_lt x.toNat_lt
  rw [ofBytes, htake, hdrop, hword, hword, UInt32.ofNat_toNat, UInt32.ofNat_toNat]

/-- What fits is unpacked as it was packed; of the manager the three low bits are left. -/
theorem unpack_pack (ha : a.toNat ≤ RingEntry.maxBusAddr) (hc : c.toNat ≤ RingEntry.maxCookie)
    (r : UInt8) :
    (pack a c r).busAddr = a ∧ (pack a c r).cookie = c ∧ (pack a c r).rbm = r &&& 7 := by
  have haddr : a.toNat < 2 ^ 40 := Nat.lt_of_le_of_lt ha (by decide)
  have hcookie : c.toNat < 1 <<< 21 := Nat.lt_of_le_of_lt hc (by decide)
  have hlow := toNat_low_pack a c r
  have hinfo := toNat_info_pack (a := a) r hcookie
  simp only [Nat.reduceShiftLeft] at hcookie
  refine ⟨?_, ?_, ?_⟩
  · rw [← UInt64.toNat_inj, toNat_busAddr, hlow, hinfo]
    omega
  · rw [← UInt32.toNat_inj, toNat_cookie, hinfo]
    omega
  · have hmask : (r &&& 7).toNat = r.toNat % 2 ^ 3 := Nat.and_two_pow_sub_one_eq_mod _ 3
    rw [← UInt8.toNat_inj, toNat_rbm, hinfo, hmask]
    omega

end EntryWords

namespace RingEntry

variable {busAddr cookie rbm : Nat} {entry : RingEntry}

theorem exists_ofFields_iff :
    (∃ entry, ofFields busAddr cookie rbm = .ok entry) ↔
      busAddr ≤ maxBusAddr ∧ cookie ≤ maxCookie := by
  constructor
  · rintro ⟨entry, hmade⟩
    obtain ⟨haddr, hcookie, -⟩ := ofFields_eq_ok hmade
    rw [← haddr, ← hcookie]
    exact ⟨Nat.le_sub_one_of_lt entry.busAddr_lt, Nat.le_sub_one_of_lt entry.cookie_lt⟩
  · rintro ⟨haddr, hcookie⟩
    exact ofFields_of_le haddr hcookie

theorem rbm_kept_iff (h : ofFields busAddr cookie rbm = .ok entry) :
    entry.rbm = rbm ↔ rbm ≤ maxRbm := by
  obtain ⟨-, -, hrbm⟩ := ofFields_eq_ok h
  have hmax : maxRbm = 7 := rfl
  have hrange : 1 <<< 3 = 8 := rfl
  rw [hrbm, hmax, hrange]
  omega

/-- Too wide an address is refused, then too wide a cookie, each with its value. Everything else
becomes an entry, which gives back address and cookie as they were and the three low bits of the
manager. So values are altered in silence exactly if address and cookie fit and the manager does
not, and exactly then an entry is made of values that do not all fit. -/
theorem alters_only_wide_managers (a : UInt64) (c : UInt32) (r : UInt8) :
    (maxBusAddr < a.toNat →
      ofFields a.toNat c.toNat r.toNat = .error (.addrOutOfRange a.toNat)) ∧
    (a.toNat ≤ maxBusAddr → maxCookie < c.toNat →
      ofFields a.toNat c.toNat r.toNat = .error (.cookieOutOfRange c.toNat)) ∧
    (a.toNat ≤ maxBusAddr → c.toNat ≤ maxCookie →
      ∃ e, ofFields a.toNat c.toNat r.toNat = .ok e ∧
        EntryWords.ofBytes e.toBytes = EntryWords.pack a c r ∧
        (EntryWords.ofBytes e.toBytes).busAddr = a ∧
        (EntryWords.ofBytes e.toBytes).cookie = c ∧
        (EntryWords.ofBytes e.toBytes).rbm = r &&& 7) ∧
    ((∀ e, ofFields a.toNat c.toNat r.toNat = .ok e →
        e.busAddr = a.toNat ∧ e.cookie = c.toNat ∧ e.rbm = r.toNat) ↔
      ¬ (a.toNat ≤ maxBusAddr ∧ c.toNat ≤ maxCookie ∧ maxRbm < r.toNat)) ∧
    (((∃ e, ofFields a.toNat c.toNat r.toNat = .ok e) ↔
        a.toNat ≤ maxBusAddr ∧ c.toNat ≤ maxCookie ∧ r.toNat ≤ maxRbm) ↔
      ¬ (a.toNat ≤ maxBusAddr ∧ c.toNat ≤ maxCookie ∧ maxRbm < r.toNat)) := by
  have hmakes : (∃ e, ofFields a.toNat c.toNat r.toNat = .ok e) ↔
      a.toNat ≤ maxBusAddr ∧ c.toNat ≤ maxCookie := exists_ofFields_iff
  refine ⟨ofFields_of_addr, ofFields_of_cookie, ?_, ?_, ?_⟩
  · intro haddr hcookie
    obtain ⟨e, hmade⟩ := hmakes.mpr ⟨haddr, hcookie⟩
    have hwords : EntryWords.ofBytes e.toBytes = EntryWords.pack a c r := by
      rw [← toBytes_pack hmade, EntryWords.ofBytes_toBytes]
    refine ⟨e, hmade, ?_⟩
    rw [hwords]
    exact ⟨rfl, EntryWords.unpack_pack haddr hcookie r⟩
  · constructor
    · rintro hexact ⟨haddr, hcookie, hwide⟩
      obtain ⟨e, hmade⟩ := hmakes.mpr ⟨haddr, hcookie⟩
      have hfits := (rbm_kept_iff hmade).mp (hexact e hmade).2.2
      exact Nat.not_lt.mpr hfits hwide
    · intro hfits e hmade
      obtain ⟨haddr, hcookie⟩ := hmakes.mp ⟨e, hmade⟩
      obtain ⟨hbus, hkept, -⟩ := ofFields_eq_ok hmade
      refine ⟨hbus, hkept, (rbm_kept_iff hmade).mpr ?_⟩
      exact Nat.not_lt.mp fun hwide => hfits ⟨haddr, hcookie, hwide⟩
  · rw [hmakes]
    constructor
    · rintro hall ⟨haddr, hcookie, hwide⟩
      exact Nat.not_lt.mpr (hall.mp ⟨haddr, hcookie⟩).2.2 hwide
    · intro hfits
      constructor
      · rintro ⟨haddr, hcookie⟩
        exact ⟨haddr, hcookie, Nat.not_lt.mp fun hwide => hfits ⟨haddr, hcookie, hwide⟩⟩
      · rintro ⟨haddr, hcookie, -⟩
        exact ⟨haddr, hcookie⟩

/-- The manager 13 becomes the manager 5; with too wide a cookie beside it there is no entry. -/
theorem alters_only_wide_managers_cut :
    (∃ e, ofFields 4096 7 13 = .ok e ∧ (EntryWords.ofBytes e.toBytes).busAddr = 4096 ∧
      (EntryWords.ofBytes e.toBytes).rbm = 5) ∧
    (¬ ∀ e, ofFields 4096 7 13 = .ok e → e.busAddr = 4096 ∧ e.cookie = 7 ∧ e.rbm = 13) ∧
    ofFields 4096 2097152 13 = .error (.cookieOutOfRange 2097152) := by
  obtain ⟨-, -, hentry, hexact, -⟩ := alters_only_wide_managers 4096 7 13
  obtain ⟨-, hrefused, -⟩ := alters_only_wide_managers 4096 2097152 13
  obtain ⟨e, hmade, -, haddr, -, hrbm⟩ := hentry (by decide) (by decide)
  refine ⟨⟨e, hmade, haddr, hrbm⟩, ?_, hrefused (by decide) (by decide)⟩
  intro hkept
  exact hexact.mp hkept (by decide)

end RingEntry

end FrameRing
