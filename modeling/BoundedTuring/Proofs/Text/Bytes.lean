/-!
# The bytes of a text

A text is stored in one to four bytes a character.  The first byte of a character is the greater the more of them there
are, and together they hold the bits of its code point, the high ones first.  So texts come in the order of their bytes
as they do in that of their code points (`bytes_lt_of_lt`).
-/
namespace BoundedTuring
namespace Text

/-- The bytes of a text. -/
def bytes (text : String) : List UInt8 := text.toUTF8.data.toList

theorem bytes_eq (text : String) : bytes text = text.toList.flatMap String.utf8EncodeChar := by
  have htext : text.toUTF8 = (text.toList.flatMap String.utf8EncodeChar).toByteArray := by
    conv => lhs; rw [← String.ofList_toList (s := text), String.toUTF8_eq_toByteArray, String.toByteArray_ofList]
    rfl
  rw [bytes, htext, List.data_toByteArray]

/-! ## Characters -/

theorem byte_cons_lt_iff {m n : Nat} (hm : m < 256) (hn : n < 256) (s t : List UInt8) :
    UInt8.ofNat m :: s < UInt8.ofNat n :: t ↔ m < n ∨ m = n ∧ s < t := by
  rw [List.cons_lt_cons_iff, UInt8.ofNat_lt_iff_lt hm hn, ← UInt8.toNat_inj, UInt8.toNat_ofNat_of_lt' hm,
    UInt8.toNat_ofNat_of_lt' hn]

/-- Bytes for the numbers below a bound, in the order of the numbers whatever follows them. -/
def Ordered (bound : Nat) (encode : Nat → List UInt8) : Prop :=
  ∀ m n, m < n → n < bound → ∀ s t : List UInt8, encode m ++ s < encode n ++ t

theorem ordered_lead {bound offset : Nat} (h : bound + offset ≤ 256) :
    Ordered bound (fun n => [UInt8.ofNat (n % bound + offset)]) := by
  intro m n hmn hn s t
  have hm : m < bound := Nat.lt_trans hmn hn
  dsimp only
  rw [Nat.mod_eq_of_lt hm, Nat.mod_eq_of_lt hn, List.singleton_append, List.singleton_append,
    byte_cons_lt_iff (by omega) (by omega)]
  omega

/-- **Six more bits in a byte at the end keep the order.** -/
theorem Ordered.continued {bound : Nat} {encode : Nat → List UInt8} (h : Ordered bound encode) :
    Ordered (bound * 64) (fun n => encode (n / 64) ++ [UInt8.ofNat (n % 64 + 128)]) := by
  intro m n hmn hn s t
  dsimp only
  rw [List.append_assoc, List.append_assoc, List.singleton_append, List.singleton_append]
  by_cases heq : m / 64 = n / 64
  · rw [heq]
    refine List.append_left_lt ?_
    rw [byte_cons_lt_iff (by omega) (by omega)]
    omega
  · exact h (m / 64) (n / 64) (by omega) (by omega) _ _

/-- **The order is kept where another encoding takes over**, if that one begins with greater bytes. -/
theorem Ordered.switch {last bound : Nat} {encode encode' : Nat → List UInt8} (h : Ordered (last + 1) encode)
    (h' : Ordered bound encode')
    (hlead : ∀ m n, m ≤ last → last < n → ∀ s t : List UInt8, encode m ++ s < encode' n ++ t) :
    Ordered bound (fun n => if n ≤ last then encode n else encode' n) := by
  intro m n hmn hn s t
  dsimp only
  by_cases hlast : n ≤ last
  · rw [if_pos hlast, if_pos (by omega)]
    exact h m n hmn (by omega) s t
  rw [if_neg hlast]
  by_cases hlast' : m ≤ last
  · rw [if_pos hlast']
    exact hlead m n hlast' (by omega) s t
  · rw [if_neg hlast']
    exact h' m n hmn hn s t

/-- **The bytes of a character come before those of a later one**, whatever follows. -/
theorem utf8EncodeChar_append_lt {c d : Char} (h : c < d) (s t : List UInt8) :
    String.utf8EncodeChar c ++ s < String.utf8EncodeChar d ++ t := by
  have hone : Ordered 128 (fun n => [UInt8.ofNat n]) := by
    intro m n hmn hn s t
    rw [List.singleton_append, List.singleton_append, byte_cons_lt_iff (by omega) (by omega)]
    exact .inl hmn
  have htwo : Ordered 2048 (fun n => [UInt8.ofNat (n / 64 % 32 + 192), UInt8.ofNat (n % 64 + 128)]) :=
    (ordered_lead (show 32 + 192 ≤ 256 by decide)).continued
  have hthree : Ordered 65536 (fun n => [UInt8.ofNat (n / 4096 % 16 + 224), UInt8.ofNat (n / 64 % 64 + 128),
      UInt8.ofNat (n % 64 + 128)]) := by
    have hbits := (ordered_lead (show 16 + 224 ≤ 256 by decide)).continued.continued
    simp only [Nat.div_div_eq_div_mul] at hbits
    exact hbits
  have hfour : Ordered 2097152 (fun n => [UInt8.ofNat (n / 262144 % 8 + 240), UInt8.ofNat (n / 4096 % 64 + 128),
      UInt8.ofNat (n / 64 % 64 + 128), UInt8.ofNat (n % 64 + 128)]) := by
    have hbits := (ordered_lead (show 8 + 240 ≤ 256 by decide)).continued.continued.continued
    simp only [Nat.div_div_eq_div_mul] at hbits
    exact hbits
  have hall := hone.switch (htwo.switch (hthree.switch hfour ?_) ?_) ?_
  · have hd : d.val.toNat < 2097152 := by
      have hvalid := d.valid
      unfold UInt32.isValidChar Nat.isValidChar at hvalid
      omega
    exact hall c.val.toNat d.val.toNat h hd s t
  -- between encodings of different lengths the first byte decides
  all_goals
    intro m n hm hn s t
    repeat' split
    all_goals
      simp (disch := omega) only [List.cons_append, byte_cons_lt_iff]
      omega

/-! ## Texts -/

theorem flatMap_utf8EncodeChar_lt : ∀ s t : List Char, s < t →
    s.flatMap String.utf8EncodeChar < t.flatMap String.utf8EncodeChar
  | _, [], h => absurd h (List.not_lt_nil _)
  | [], d :: t, _ => by
    rw [List.flatMap_cons]
    cases hbytes : String.utf8EncodeChar d with
    | nil => exact absurd hbytes String.utf8EncodeChar_ne_nil
    | cons b bs => exact List.nil_lt_cons b _
  | c :: s, d :: t, h => by
    rw [List.flatMap_cons, List.flatMap_cons]
    rcases List.cons_lt_cons_iff.1 h with hlt | ⟨rfl, hlt⟩
    · exact utf8EncodeChar_append_lt hlt _ _
    · exact List.append_left_lt (flatMap_utf8EncodeChar_lt s t hlt)

/-- **Texts come in the order of their bytes.** -/
theorem bytes_lt_of_lt {s t : String} (h : s < t) : bytes s < bytes t := by
  rw [bytes_eq, bytes_eq]
  exact flatMap_utf8EncodeChar_lt _ _ (String.lt_iff.1 h)

end Text
end BoundedTuring
