/-
Written bytes and texts are read back, and nothing else is read.

* `Base64.decode?_encode`, `decode?_encodeUtf8` — what was written is read back;
* `Base64.encode_eq_of_decode?`, `encodeUtf8_of_decode?` — what is read was written so: padding,
  the bits left over and the alphabet leave no choice;
* `Base64.forall_mem_encode` — which characters bytes are written with.
-/
import Mailroom.Text.Base64
import Mailroom.Text.Utf8

namespace Mailroom.Text

theorem decode?_encodeUtf8 (s : String) : decode? (encodeUtf8 s) = some s := by
  have hbytes : (⟨(encodeUtf8 s).toArray⟩ : ByteArray) = s.toByteArray := by simp [encodeUtf8]
  rw [decode?, hbytes, String.fromUTF8?, dif_pos s.isValidUTF8]
  rfl

theorem encodeUtf8_of_decode? {bytes : List UInt8} {s : String} (h : decode? bytes = some s) :
    encodeUtf8 s = bytes := by
  rw [decode?, String.fromUTF8?] at h
  split at h
  · obtain rfl := Option.some.inj h
    rfl
  · exact absurd h (by simp)

theorem toNat_byte {n : Nat} (h : n < 256) : (UInt8.ofNat n).toNat = n :=
  UInt8.toNat_ofNat_of_lt' h

namespace Base64

theorem value?_digit {n : Nat} (h : n < 64) : value? (digit n) = some n := by
  have key : ∀ n < 64, value? (digit n) = some n := by decide
  exact key n h

theorem digit_ne_padding {n : Nat} (h : n < 64) : digit n ≠ '=' := by
  intro heq
  have hvalue := value?_digit h
  rw [heq] at hvalue
  exact absurd hvalue (by simp [value?])

theorem decode?_cons_four {a b c d : Char} {x y z w : Nat} {rest : List Char}
    (ha : value? a = some x) (hb : value? b = some y) (hc : value? c = some z)
    (hd : value? d = some w) :
    decode? (a :: b :: c :: d :: rest) = (decode? rest).map (threeBytes x y z w ++ ·) := by
  have hpad : d ≠ '=' := by
    rintro rfl
    exact absurd hd (by simp [value?])
  -- the fourth character is no padding, so the clauses for short groups do not apply
  rw [decode?]
  · simp only [ha, hb, hc, hd, bind, Option.bind]
    cases decode? rest <;> rfl
  · intro _ h
    exact absurd h hpad
  · intro h
    exact absurd h hpad

theorem ofNat_of_eq {n : Nat} {a : UInt8} (h : n = a.toNat) : UInt8.ofNat n = a := by
  rw [h, UInt8.ofNat_toNat]

theorem decode?_encode (bytes : List UInt8) : decode? (encode bytes) = some bytes := by
  induction bytes using encode.induct with
  | case1 => rfl
  | case2 a =>
    have ha := a.toNat_lt
    have hx := value?_digit (n := a.toNat / 4) (by omega)
    have hy := value?_digit (n := a.toNat % 4 * 16) (by omega)
    have hrest : a.toNat % 4 * 16 % 16 = 0 := by omega
    have hfirst : UInt8.ofNat (a.toNat / 4 * 4 + a.toNat % 4 * 16 / 16) = a :=
      ofNat_of_eq (by omega)
    simp only [encode, decode?, hx, hy, hrest, hfirst, bind, Option.bind, if_true]
  | case3 a b =>
    have ha := a.toNat_lt
    have hb := b.toNat_lt
    have hx := value?_digit (n := a.toNat / 4) (by omega)
    have hy := value?_digit (n := a.toNat % 4 * 16 + b.toNat / 16) (by omega)
    have hz := value?_digit (n := b.toNat % 16 * 4) (by omega)
    have hpad := digit_ne_padding (n := b.toNat % 16 * 4) (by omega)
    have hrest : b.toNat % 16 * 4 % 4 = 0 := by omega
    have hfirst : UInt8.ofNat (a.toNat / 4 * 4 + (a.toNat % 4 * 16 + b.toNat / 16) / 16) = a :=
      ofNat_of_eq (by omega)
    have hsecond : UInt8.ofNat ((a.toNat % 4 * 16 + b.toNat / 16) % 16 * 16 +
        b.toNat % 16 * 4 / 4) = b := ofNat_of_eq (by omega)
    rw [encode, decode?]
    · simp only [hx, hy, hz, hrest, hfirst, hsecond, bind, Option.bind, if_true]
    · exact hpad
  | case4 a b c rest ih =>
    have ha := a.toNat_lt
    have hb := b.toNat_lt
    have hc := c.toNat_lt
    have hfirst : UInt8.ofNat (a.toNat / 4 * 4 + (a.toNat % 4 * 16 + b.toNat / 16) / 16) = a :=
      ofNat_of_eq (by omega)
    have hsecond : UInt8.ofNat ((a.toNat % 4 * 16 + b.toNat / 16) % 16 * 16 +
        (b.toNat % 16 * 4 + c.toNat / 64) / 4) = b := ofNat_of_eq (by omega)
    have hthird : UInt8.ofNat ((b.toNat % 16 * 4 + c.toNat / 64) % 4 * 64 + c.toNat % 64) = c :=
      ofNat_of_eq (by omega)
    rw [encode, decode?_cons_four (value?_digit (by omega)) (value?_digit (by omega))
      (value?_digit (by omega)) (value?_digit (by omega)), ih, threeBytes, hfirst, hsecond, hthird]
    rfl

/-- What holds of the digits and of the padding holds of everything that bytes are written with. -/
theorem forall_mem_encode {p : Char → Prop} (hdigit : ∀ n < 64, p (digit n)) (hpad : p '=')
    (bytes : List UInt8) : ∀ c ∈ encode bytes, p c := by
  induction bytes using encode.induct with
  | case1 => simp [encode]
  | case2 a =>
    have ha := a.toNat_lt
    simp only [encode, List.forall_mem_cons]
    exact ⟨hdigit _ (by omega), hdigit _ (by omega), hpad, hpad, by simp⟩
  | case3 a b =>
    have ha := a.toNat_lt
    have hb := b.toNat_lt
    simp only [encode, List.forall_mem_cons]
    exact ⟨hdigit _ (by omega), hdigit _ (by omega), hdigit _ (by omega), hpad, by simp⟩
  | case4 a b c rest ih =>
    have ha := a.toNat_lt
    have hb := b.toNat_lt
    have hc := c.toNat_lt
    simp only [encode, List.forall_mem_cons]
    exact ⟨hdigit _ (by omega), hdigit _ (by omega), hdigit _ (by omega), hdigit _ (by omega), ih⟩

/-! ### Nothing else is read -/

theorem digit_of_value? {c : Char} {n : Nat} (h : value? c = some n) : digit n = c ∧ n < 64 := by
  -- in each range of the alphabet the number is the distance from its first character
  have key : ∀ k, c.toNat = k → Char.ofNat k = c := fun k hk => by rw [← hk, Char.ofNat_toNat]
  simp only [value?, Char.le_def, UInt32.le_iff_toNat_le] at h
  split at h
  · rename_i hupper
    obtain rfl := Option.some.inj h
    have : (65 ≤ c.toNat ∧ c.toNat ≤ 90) := hupper
    refine ⟨?_, by omega⟩
    rw [digit, if_pos (by omega)]
    exact key _ (by omega)
  split at h
  · rename_i hlower
    obtain rfl := Option.some.inj h
    have : (97 ≤ c.toNat ∧ c.toNat ≤ 122) := hlower
    refine ⟨?_, by omega⟩
    rw [digit, if_neg (by omega), if_pos (by omega)]
    exact key _ (by omega)
  split at h
  · rename_i hdigit
    obtain rfl := Option.some.inj h
    have : (48 ≤ c.toNat ∧ c.toNat ≤ 57) := hdigit
    refine ⟨?_, by omega⟩
    rw [digit, if_neg (by omega), if_neg (by omega), if_pos (by omega)]
    exact key _ (by omega)
  split at h
  · rename_i hplus
    obtain rfl := Option.some.inj h
    exact ⟨hplus.symm, by omega⟩
  split at h
  · rename_i hslash
    obtain rfl := Option.some.inj h
    exact ⟨hslash.symm, by omega⟩
  · exact absurd h (by simp)

/-- Four digits are those of the three bytes that they carry. -/
theorem encode_threeBytes {x y z w : Nat} (hx : x < 64) (hy : y < 64) (hz : z < 64) (hw : w < 64)
    (more : List UInt8) : encode (threeBytes x y z w ++ more) =
      digit x :: digit y :: digit z :: digit w :: encode more := by
  have hx' : (x * 4 + y / 16) / 4 = x := by omega
  have hy' : (x * 4 + y / 16) % 4 * 16 + (y % 16 * 16 + z / 4) / 16 = y := by omega
  have hz' : (y % 16 * 16 + z / 4) % 16 * 4 + (z % 4 * 64 + w) / 64 = z := by omega
  have hw' : (z % 4 * 64 + w) % 64 = w := by omega
  show encode (_ :: _ :: _ :: more) = _
  rw [encode, toNat_byte (by omega), toNat_byte (by omega), toNat_byte (by omega), hx', hy', hz',
    hw']

/-- Nothing is read but what is written for some bytes. -/
theorem encode_eq_of_decode? {cs : List Char} {bytes : List UInt8} (h : decode? cs = some bytes) :
    encode bytes = cs := by
  fun_induction decode? cs generalizing bytes with
  | case1 =>
    obtain rfl := Option.some.inj h
    rfl
  | case2 a b =>
    simp only [Option.bind_eq_bind, Option.bind_eq_some_iff] at h
    obtain ⟨x, hx, y, hy, h⟩ := h
    obtain ⟨rfl, hx_lt⟩ := digit_of_value? hx
    obtain ⟨rfl, hy_lt⟩ := digit_of_value? hy
    split at h
    · obtain rfl := Option.some.inj h
      have hx' : (x * 4 + y / 16) / 4 = x := by omega
      have hy' : (x * 4 + y / 16) % 4 * 16 = y := by omega
      rw [encode, toNat_byte (by omega), hx', hy']
    · exact absurd h (by simp)
  | case3 a b c =>
    simp only [Option.bind_eq_bind, Option.bind_eq_some_iff] at h
    obtain ⟨x, hx, y, hy, z, hz, h⟩ := h
    obtain ⟨rfl, hx_lt⟩ := digit_of_value? hx
    obtain ⟨rfl, hy_lt⟩ := digit_of_value? hy
    obtain ⟨rfl, hz_lt⟩ := digit_of_value? hz
    split at h
    · obtain rfl := Option.some.inj h
      have hx' : (x * 4 + y / 16) / 4 = x := by omega
      have hy' : (x * 4 + y / 16) % 4 * 16 + (y % 16 * 16 + z / 4) / 16 = y := by omega
      have hz' : (y % 16 * 16 + z / 4) % 16 * 4 = z := by omega
      rw [encode, toNat_byte (by omega), toNat_byte (by omega), hx', hy', hz']
    · exact absurd h (by simp)
  | case4 a b c d rest _ _ ih =>
    simp only [Option.bind_eq_bind, Option.bind_eq_some_iff] at h
    obtain ⟨x, hx, y, hy, z, hz, w, hw, more, hmore, h⟩ := h
    obtain ⟨rfl, hx_lt⟩ := digit_of_value? hx
    obtain ⟨rfl, hy_lt⟩ := digit_of_value? hy
    obtain ⟨rfl, hz_lt⟩ := digit_of_value? hz
    obtain ⟨rfl, hw_lt⟩ := digit_of_value? hw
    obtain rfl := Option.some.inj h
    rw [encode_threeBytes hx_lt hy_lt hz_lt hw_lt, ih hmore]
  | case5 => exact absurd h (by simp)

end Base64

end Mailroom.Text
