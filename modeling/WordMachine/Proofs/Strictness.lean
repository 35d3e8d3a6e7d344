import WordMachine.Proofs.RoundTrip

/-!
# Decoders accept nothing but encoded texts

Decoding undoes encoding. Here is the other direction: octets that a decoder accepts are the octets of the
text it gives. Each decoder takes the octets of one character off the front, by the arithmetic of its octets
once more, and whole texts follow by one induction (`eq_flatMap_of_decode`). So overlong forms, stray
surrogates and cut sequences are all refused.

Two encodings are lenient about their marks. UTF-8 with a mark may come without one, or with the beginning of
one and nothing else; UTF-16 with a mark may be empty. `Encoding.Reads` lists all that is accepted, and
`decode_eq_ok_iff` says that it does. UTF-16 that would decode but has no mark is not malformed either: it is
the one input that is refused in another way (`decode_eq_missingMark_iff`).
-/

namespace WordMachine.Encoding

theorem exists_of_map_eq_ok {ε α β : Type} {f : α → β} {x : Except ε α} {b : β}
    (h : x.map f = .ok b) : ∃ a, x = .ok a ∧ f a = b := by
  cases x with
  | error e => cases h
  | ok a =>
    cases h
    exact ⟨a, rfl, rfl⟩

/-- A decoder that takes the octets of one character off what it accepts accepts the octets of characters
only. -/
theorem eq_flatMap_of_decode (decode : Nat → List UInt8 → Except Malformed (List Char))
    {octets : Char → List UInt8} (hnil : ∀ pos, decode pos [] = .ok [])
    (hchar : ∀ pos b bs cs, decode pos (b :: bs) = .ok cs → ∃ c cs' rest pos', cs = c :: cs' ∧
      b :: bs = octets c ++ rest ∧ decode pos' rest = .ok cs')
    {pos : Nat} {bs : List UInt8} {cs : List Char} (h : decode pos bs = .ok cs) :
    bs = cs.flatMap octets := by
  induction cs generalizing pos bs with
  | nil =>
    cases bs with
    | nil => rfl
    | cons b bs =>
      obtain ⟨c, cs', rest, pos', hcs, -⟩ := hchar pos b bs [] h
      cases hcs
  | cons c cs ih =>
    cases bs with
    | nil =>
      rw [hnil] at h
      cases h
    | cons b bs =>
      obtain ⟨d, cs', rest, pos', hcs, hbs, hrest⟩ := hchar pos b bs (c :: cs) h
      obtain ⟨rfl, rfl⟩ := List.cons.inj hcs
      rw [hbs, ih hrest, List.flatMap_cons]

theorem toNat_ofNat_of_scalar {n : Nat} (h : n < 0xD800 ∨ 0xDFFF < n ∧ n < 0x110000) :
    (Char.ofNat n).toNat = n := by
  unfold Char.ofNat
  rw [dif_pos h]
  rfl

theorem ofNat_eq_of_toNat_eq {b : UInt8} {n : Nat} (h : n = b.toNat) : UInt8.ofNat n = b := by
  rw [h, UInt8.ofNat_toNat]

/-! ## UTF-8 -/

namespace Utf8

theorem continuation_eq {b : UInt8} {n : Nat} (hlow : 0x80 ≤ b.toNat) (hhigh : b.toNat ≤ 0xBF)
    (h : n % 64 = b.toNat - 0x80) : continuation n = b := by
  apply ofNat_eq_of_toNat_eq
  omega

section Spans

variable {b c d e : UInt8}

theorem encodeChar_one (hb : b.toNat < 0x80) : encodeChar (Char.ofNat b.toNat) = [b] := by
  have hn : (Char.ofNat b.toNat).toNat = b.toNat := toNat_ofNat_of_scalar (by omega)
  unfold encodeChar
  rw [hn, if_pos hb, UInt8.ofNat_toNat]

theorem encodeChar_two (hb : 0xC2 ≤ b.toNat ∧ b.toNat ≤ 0xDF) (hc : 0x80 ≤ c.toNat ∧ c.toNat ≤ 0xBF) :
    encodeChar (Char.ofNat ((b.toNat - 0xC0) * 64 + (c.toNat - 0x80))) = [b, c] := by
  generalize hn : (b.toNat - 0xC0) * 64 + (c.toNat - 0x80) = n
  have hscalar : (Char.ofNat n).toNat = n := toNat_ofNat_of_scalar (by omega)
  have hlead : UInt8.ofNat (0xC0 + n / 64) = b := ofNat_eq_of_toNat_eq (by omega)
  have hlast : continuation n = c := continuation_eq hc.1 hc.2 (by omega)
  unfold encodeChar
  rw [hscalar, if_neg (by omega), if_pos (by omega), hlead, hlast]

/-- The ranges of the second octet rule out overlong forms and surrogates. -/
theorem encodeChar_three (hb : 0xE0 ≤ b.toNat ∧ b.toNat ≤ 0xEF)
    (hc : 0x80 ≤ c.toNat ∧ c.toNat ≤ 0xBF) (hd : 0x80 ≤ d.toNat ∧ d.toNat ≤ 0xBF)
    (hshort : b.toNat = 0xE0 → 0xA0 ≤ c.toNat) (hsurrogate : b.toNat = 0xED → c.toNat ≤ 0x9F) :
    encodeChar (Char.ofNat (((b.toNat - 0xE0) * 64 + (c.toNat - 0x80)) * 64 + (d.toNat - 0x80))) =
      [b, c, d] := by
  generalize hn : ((b.toNat - 0xE0) * 64 + (c.toNat - 0x80)) * 64 + (d.toNat - 0x80) = n
  have hscalar : (Char.ofNat n).toNat = n := toNat_ofNat_of_scalar (by omega)
  have hlead : UInt8.ofNat (0xE0 + n / 4096) = b := ofNat_eq_of_toNat_eq (by omega)
  have hmiddle : continuation (n / 64) = c := continuation_eq hc.1 hc.2 (by omega)
  have hlast : continuation n = d := continuation_eq hd.1 hd.2 (by omega)
  unfold encodeChar
  rw [hscalar, if_neg (by omega), if_neg (by omega), if_pos (by omega), hlead, hmiddle, hlast]

/-- The ranges of the second octet rule out overlong forms and values beyond the last character. -/
theorem encodeChar_four (hb : 0xF0 ≤ b.toNat ∧ b.toNat ≤ 0xF4)
    (hc : 0x80 ≤ c.toNat ∧ c.toNat ≤ 0xBF) (hd : 0x80 ≤ d.toNat ∧ d.toNat ≤ 0xBF)
    (he : 0x80 ≤ e.toNat ∧ e.toNat ≤ 0xBF) (hshort : b.toNat = 0xF0 → 0x90 ≤ c.toNat)
    (hlarge : b.toNat = 0xF4 → c.toNat ≤ 0x8F) :
    encodeChar (Char.ofNat ((((b.toNat - 0xF0) * 64 + (c.toNat - 0x80)) * 64 +
      (d.toNat - 0x80)) * 64 + (e.toNat - 0x80))) = [b, c, d, e] := by
  generalize hn : (((b.toNat - 0xF0) * 64 + (c.toNat - 0x80)) * 64 + (d.toNat - 0x80)) * 64 +
    (e.toNat - 0x80) = n
  have hscalar : (Char.ofNat n).toNat = n := toNat_ofNat_of_scalar (by omega)
  have hlead : UInt8.ofNat (0xF0 + n / 262144) = b := ofNat_eq_of_toNat_eq (by omega)
  have hsecond : continuation (n / 4096) = c := continuation_eq hc.1 hc.2 (by omega)
  have hthird : continuation (n / 64) = d := continuation_eq hd.1 hd.2 (by omega)
  have hlast : continuation n = e := continuation_eq he.1 he.2 (by omega)
  unfold encodeChar
  rw [hscalar, if_neg (by omega), if_neg (by omega), if_neg (by omega), hlead, hsecond, hthird, hlast]

end Spans

/-- What the lead of a sequence asks of the octets behind it. -/
theorem ofLead?_cases {pos : Nat} {b : UInt8} {p : Pending} (h : Pending.ofLead? pos b = some p) :
    (p = ⟨pos, b, b.toNat - 0xC0, 0x80, 0xBF, 0⟩ ∧ 0xC2 ≤ b.toNat ∧ b.toNat ≤ 0xDF) ∨
    (∃ low high, p = ⟨pos, b, b.toNat - 0xE0, low, high, 1⟩ ∧ 0xE0 ≤ b.toNat ∧ b.toNat ≤ 0xEF ∧
      0x80 ≤ low ∧ high ≤ 0xBF ∧ (b.toNat = 0xE0 → 0xA0 ≤ low) ∧ (b.toNat = 0xED → high ≤ 0x9F)) ∨
    ∃ low high, p = ⟨pos, b, b.toNat - 0xF0, low, high, 2⟩ ∧ 0xF0 ≤ b.toNat ∧ b.toNat ≤ 0xF4 ∧
      0x80 ≤ low ∧ high ≤ 0xBF ∧ (b.toNat = 0xF0 → 0x90 ≤ low) ∧ (b.toNat = 0xF4 → high ≤ 0x8F) := by
  unfold Pending.ofLead? at h
  dsimp only at h
  split at h
  case isTrue hb =>
    cases h
    exact .inl ⟨rfl, hb⟩
  split at h
  case isTrue hb =>
    cases h
    exact .inr (.inl ⟨0xA0, 0xBF, by rw [hb], by omega⟩)
  split at h
  case isTrue hb =>
    cases h
    exact .inr (.inl ⟨0x80, 0x9F, by rw [hb], by omega⟩)
  split at h
  case isTrue hb =>
    cases h
    exact .inr (.inl ⟨0x80, 0xBF, rfl, by omega⟩)
  split at h
  case isTrue hb =>
    cases h
    exact .inr (.inr ⟨0x90, 0xBF, by rw [hb], by omega⟩)
  split at h
  case isTrue hb =>
    cases h
    exact .inr (.inr ⟨0x80, 0xBF, rfl, by omega⟩)
  split at h
  case isTrue hb =>
    cases h
    exact .inr (.inr ⟨0x80, 0x8F, by rw [hb], by omega⟩)
  case isFalse => cases h

/-- The last octet of a sequence lies in its range and completes a character. -/
theorem last_of_decodeFrom {pos : Nat} {start value low high : Nat} {lead : UInt8}
    {bs : List UInt8} {cs : List Char}
    (h : decodeFrom pos (some ⟨start, lead, value, low, high, 0⟩) bs = .ok cs) :
    ∃ b rest cs', bs = b :: rest ∧ low ≤ b.toNat ∧ b.toNat ≤ high ∧
      cs = Char.ofNat (value * 64 + (b.toNat - 0x80)) :: cs' ∧
      decodeFrom (pos + 1) none rest = .ok cs' := by
  cases bs with
  | nil => cases h
  | cons b rest =>
    rw [decodeFrom] at h
    split at h
    case isTrue hrange =>
      obtain ⟨cs', hrest, rfl⟩ := exists_of_map_eq_ok h
      exact ⟨b, rest, cs', rfl, hrange.1, hrange.2, rfl, hrest⟩
    case isFalse => cases h

/-- An octet before the last one lies in its range, and those behind it may be any that continue. -/
theorem more_of_decodeFrom {pos : Nat} {start value low high more : Nat} {lead : UInt8}
    {bs : List UInt8} {cs : List Char}
    (h : decodeFrom pos (some ⟨start, lead, value, low, high, more + 1⟩) bs = .ok cs) :
    ∃ b rest, bs = b :: rest ∧ low ≤ b.toNat ∧ b.toNat ≤ high ∧
      decodeFrom (pos + 1)
        (some ⟨start, lead, value * 64 + (b.toNat - 0x80), 0x80, 0xBF, more⟩) rest = .ok cs := by
  cases bs with
  | nil => cases h
  | cons b rest =>
    rw [decodeFrom] at h
    split at h
    case isTrue hrange => exact ⟨b, rest, rfl, hrange.1, hrange.2, h⟩
    case isFalse => cases h

/-- Octets that decode start with those of a character. -/
theorem encodeChar_of_decodeFrom {pos : Nat} {b : UInt8} {bs : List UInt8} {cs : List Char}
    (h : decodeFrom pos none (b :: bs) = .ok cs) :
    ∃ c cs' rest pos', cs = c :: cs' ∧ b :: bs = encodeChar c ++ rest ∧
      decodeFrom pos' none rest = .ok cs' := by
  rw [decodeFrom] at h
  split at h
  case isTrue hb =>
    obtain ⟨cs', hrest, rfl⟩ := exists_of_map_eq_ok h
    exact ⟨_, cs', bs, _, rfl, by rw [encodeChar_one hb]; rfl, hrest⟩
  split at h
  case h_1 => cases h
  case h_2 p hlead =>
    -- the lead fixes how many octets follow, and each of them was seen to lie in its range
    rcases ofLead?_cases hlead with ⟨rfl, hb⟩ | ⟨low, high, rfl, hlow, hhigh, hrange⟩ |
      ⟨low, high, rfl, hlow, hhigh, hrange⟩
    · obtain ⟨c, rest, cs', rfl, hc, hc', rfl, hrest⟩ := last_of_decodeFrom h
      exact ⟨_, cs', rest, _, rfl, by rw [encodeChar_two hb ⟨hc, hc'⟩]; rfl, hrest⟩
    · obtain ⟨c, bs, rfl, hc, hc', h⟩ := more_of_decodeFrom h
      obtain ⟨d, rest, cs', rfl, hd, hd', rfl, hrest⟩ := last_of_decodeFrom h
      have hspan := encodeChar_three (b := b) (c := c) (d := d) ⟨hlow, hhigh⟩ (by omega) ⟨hd, hd'⟩
        (by omega) (by omega)
      exact ⟨_, cs', rest, _, rfl, by rw [hspan]; rfl, hrest⟩
    · obtain ⟨c, bs, rfl, hc, hc', h⟩ := more_of_decodeFrom h
      obtain ⟨d, bs, rfl, hd, hd', h⟩ := more_of_decodeFrom h
      obtain ⟨e, rest, cs', rfl, he, he', rfl, hrest⟩ := last_of_decodeFrom h
      have hspan := encodeChar_four (b := b) (c := c) (d := d) (e := e) ⟨hlow, hhigh⟩ (by omega)
        ⟨hd, hd'⟩ ⟨he, he'⟩ (by omega) (by omega)
      exact ⟨_, cs', rest, _, rfl, by rw [hspan]; rfl, hrest⟩

theorem decode_eq_ok_iff {octets : List UInt8} {cs : List Char} :
    decode octets = .ok cs ↔ octets = encode cs := by
  constructor
  · intro h
    exact eq_flatMap_of_decode (fun pos => decodeFrom pos none) (fun _ => rfl)
      (fun _ _ _ _ => encodeChar_of_decodeFrom) h
  · rintro rfl
    exact decode_encode cs

end Utf8

/-! ## UTF-16 -/

namespace Utf16

variable {order : Order} {a b : UInt8}

theorem unit_lt (order : Order) (a b : UInt8) : order.unit a b < 0x10000 := by
  have ha := a.toNat_lt
  have hb := b.toNat_lt
  cases order with
  | little =>
    show a.toNat + 256 * b.toNat < 0x10000
    omega
  | big =>
    show 256 * a.toNat + b.toNat < 0x10000
    omega

theorem octets_unit (order : Order) (a b : UInt8) : order.octets (order.unit a b) = [a, b] := by
  have ha := a.toNat_lt
  have hb := b.toNat_lt
  cases order with
  | little =>
    have hlow : UInt8.ofNat ((a.toNat + 256 * b.toNat) % 256) = a := ofNat_eq_of_toNat_eq (by omega)
    have hhigh : UInt8.ofNat ((a.toNat + 256 * b.toNat) / 256) = b := ofNat_eq_of_toNat_eq (by omega)
    rw [Order.unit, Order.octets, hlow, hhigh]
  | big =>
    have hlow : UInt8.ofNat ((256 * a.toNat + b.toNat) % 256) = b := ofNat_eq_of_toNat_eq (by omega)
    have hhigh : UInt8.ofNat ((256 * a.toNat + b.toNat) / 256) = a := ofNat_eq_of_toNat_eq (by omega)
    rw [Order.unit, Order.octets, hlow, hhigh]

theorem encodeChar_single (hlow : isLow (order.unit a b) = false)
    (hhigh : isHigh (order.unit a b) = false) :
    encodeChar order (Char.ofNat (order.unit a b)) = [a, b] := by
  have hlt := unit_lt order a b
  have hscalar : (Char.ofNat (order.unit a b)).toNat = order.unit a b := by
    apply toNat_ofNat_of_scalar
    simp only [isLow, isHigh, Bool.and_eq_false_iff, decide_eq_false_iff_not] at hlow hhigh
    omega
  unfold encodeChar
  rw [hscalar, if_pos hlt, octets_unit]

theorem encodeChar_pair {c d : UInt8} (hhigh : isHigh (order.unit a b) = true)
    (hlow : isLow (order.unit c d) = true) :
    encodeChar order (Char.ofNat (paired (order.unit a b) (order.unit c d))) = [a, b, c, d] := by
  have hab := octets_unit order a b
  have hcd := octets_unit order c d
  simp only [isLow, isHigh, Bool.and_eq_true, decide_eq_true_eq] at hlow hhigh
  generalize order.unit a b = u at hab hhigh ⊢
  generalize order.unit c d = v at hcd hlow ⊢
  have hscalar : (Char.ofNat (paired u v)).toNat = paired u v := by
    apply toNat_ofNat_of_scalar
    unfold paired
    omega
  have hu : 0xD800 + (paired u v - 0x10000) / 0x400 = u := by
    unfold paired
    omega
  have hv : 0xDC00 + (paired u v - 0x10000) % 0x400 = v := by
    unfold paired
    omega
  have hbeyond : ¬ paired u v < 0x10000 := by
    unfold paired
    omega
  unfold encodeChar
  rw [hscalar, if_neg hbeyond, hu, hv, hab, hcd]
  rfl

theorem encodeChar_of_decodeFrom {pos : Nat} {bs : List UInt8} {cs : List Char}
    (h : decodeFrom order pos (a :: bs) = .ok cs) :
    ∃ c cs' rest pos', cs = c :: cs' ∧ a :: bs = encodeChar order c ++ rest ∧
      decodeFrom order pos' rest = .ok cs' := by
  cases bs with
  | nil =>
    rw [decodeFrom] at h
    cases h
  | cons b bs =>
    rw [decodeFrom.eq_def] at h
    dsimp only at h
    split at h
    case isTrue => cases h
    case isFalse hlow =>
      rw [Bool.not_eq_true] at hlow
      split at h
      case isTrue hhigh =>
        split at h
        case h_1 c d rest =>
          split at h
          case isTrue hpair =>
            obtain ⟨cs', hrest, rfl⟩ := exists_of_map_eq_ok h
            exact ⟨_, cs', rest, _, rfl, by rw [encodeChar_pair hhigh hpair]; rfl, hrest⟩
          case isFalse => cases h
        case h_2 => cases h
        case h_3 => cases h
      case isFalse hhigh =>
        rw [Bool.not_eq_true] at hhigh
        obtain ⟨cs', hrest, rfl⟩ := exists_of_map_eq_ok h
        exact ⟨_, cs', bs, _, rfl, by rw [encodeChar_single hlow hhigh]; rfl, hrest⟩

theorem decodeFrom_eq_ok_iff {pos : Nat} {octets : List UInt8} {cs : List Char} :
    decodeFrom order pos octets = .ok cs ↔ octets = encode order cs := by
  constructor
  · intro h
    exact eq_flatMap_of_decode (decodeFrom order) (fun _ => by rw [decodeFrom])
      (fun _ _ _ _ => encodeChar_of_decodeFrom) h
  · rintro rfl
    exact decodeFrom_encode order pos cs

/-- A byte order mark that tells an order stands in front. -/
theorem order?_eq_some_iff {octets : List UInt8} :
    order? octets = some order ↔ ∃ rest, octets = mark order ++ rest := by
  constructor
  · intro h
    unfold order? at h
    split at h
    · cases h
      exact ⟨_, rfl⟩
    · cases h
      exact ⟨_, rfl⟩
    · cases h
  · rintro ⟨rest, rfl⟩
    exact order?_mark order rest

end Utf16

/-! ## One octet for each character -/

theorem encodeBelow?_ofNat {bound : Nat} {octets : List UInt8}
    (h : ∀ b ∈ octets, b.toNat < bound) :
    encodeBelow? bound (octets.map fun b => Char.ofNat b.toNat) = some octets := by
  have hchar : ∀ b : UInt8, (Char.ofNat b.toNat).toNat = b.toNat := by
    intro b
    have hb := b.toNat_lt
    exact toNat_ofNat_of_scalar (by omega)
  unfold encodeBelow?
  rw [if_pos (by simpa [hchar] using h), List.map_map]
  refine congrArg some ((List.map_congr_left ?_).trans (List.map_id octets))
  intro b _
  exact ofNat_eq_of_toNat_eq (hchar b)

theorem of_decodeAscii {pos : Nat} {octets : List UInt8} {cs : List Char}
    (h : decodeAscii pos octets = .ok cs) :
    (∀ b ∈ octets, b.toNat < 0x80) ∧ cs = octets.map fun b => Char.ofNat b.toNat := by
  induction octets generalizing pos cs with
  | nil =>
    cases h
    exact ⟨by simp, rfl⟩
  | cons b octets ih =>
    rw [decodeAscii] at h
    split at h
    case isTrue hb =>
      obtain ⟨cs', hrest, rfl⟩ := exists_of_map_eq_ok h
      obtain ⟨hall, rfl⟩ := ih hrest
      exact ⟨by simpa [hb] using hall, rfl⟩
    case isFalse => cases h

/-! ## All encodings -/

/-- The octets are read as the text. They store it; or the text is UTF-8 that could have a mark and has
none, or the beginning of a mark and nothing else; or no octets are read as no text. -/
inductive Reads : Encoding → List UInt8 → List Char → Prop where
  | stored {e : Encoding} {octets : List UInt8} {cs : List Char} (h : e.Stores cs octets) :
    Reads e octets cs
  | unsigned {cs : List Char} (h : ¬ Utf8.mark <+: Utf8.encode cs) :
    Reads utf8Signed (Utf8.encode cs) cs
  | halfSigned {octets : List UInt8} (h : octets <+: Utf8.mark) : Reads utf8Signed octets []
  | empty : Reads utf16 [] []

/-- UTF-16 of at least one character, with the low octet first and no mark. -/
def Unmarked (octets : List UInt8) : Prop :=
  Utf16.order? octets = none ∧ ∃ cs, cs ≠ [] ∧ octets = Utf16.encode .little cs

section Decode

variable {octets : List UInt8} {cs : List Char}

theorem mapError_eq_ok_iff {ε ε' α : Type} {f : ε → ε'} {x : Except ε α} {a : α} :
    x.mapError f = .ok a ↔ x = .ok a := by
  cases x with
  | error e => exact ⟨nofun, nofun⟩
  | ok b =>
    constructor
    · intro h
      cases h
      rfl
    · intro h
      cases h
      rfl

theorem mapError_malformed_ne {x : Except Malformed (List Char)} :
    x.mapError DecodeError.malformed ≠ .error .missingMark := by
  cases x <;> nofun

/-- The beginning of a mark is no text in UTF-8, if it is not empty. -/
theorem Utf8.eq_nil_of_partial_mark (h : Utf8.encode cs <+: Utf8.mark)
    (hmark : ¬ Utf8.mark <+: Utf8.encode cs) : cs = [] := by
  have hdecode := Utf8.decode_encode cs
  generalize Utf8.encode cs = octets at hdecode h hmark
  simp only [Utf8.mark, List.prefix_cons_iff, List.prefix_nil] at h
  rcases h with rfl | ⟨_, rfl, rfl | ⟨_, rfl, rfl | ⟨_, rfl, rfl⟩⟩⟩
  · exact (Except.ok.inj hdecode).symm
  · cases hdecode
  · cases hdecode
  · exact absurd (List.prefix_refl Utf8.mark) hmark

theorem decodeSigned_eq_ok_iff : decodeSigned octets = .ok cs ↔ Reads utf8Signed octets cs := by
  constructor
  · intro h
    unfold decodeSigned at h
    split at h
    case isTrue hpart =>
      cases h
      exact .halfSigned (List.isPrefixOf_iff_prefix.mp hpart)
    split at h
    case isTrue hmark =>
      obtain ⟨rest, rfl⟩ := List.isPrefixOf_iff_prefix.mp hmark
      rw [List.drop_left, Utf8.decode_eq_ok_iff] at h
      subst h
      exact .stored (.inl rfl)
    case isFalse hmark =>
      rw [List.isPrefixOf_iff_prefix] at hmark
      rw [Utf8.decode_eq_ok_iff] at h
      subst h
      exact .unsigned hmark
  · intro h
    cases h with
    | stored h => exact mapError_eq_ok_iff.mp (decode_of_stores h)
    | unsigned hmark =>
      unfold decodeSigned
      split
      case isTrue hpart =>
        -- an empty text is the only one that is taken for the beginning of a mark
        rw [Utf8.eq_nil_of_partial_mark (List.isPrefixOf_iff_prefix.mp hpart) hmark]
      case isFalse =>
        rw [if_neg (by rwa [List.isPrefixOf_iff_prefix]), Utf8.decode_encode]
    | halfSigned hpart =>
      unfold decodeSigned
      rw [if_pos (List.isPrefixOf_iff_prefix.mpr hpart)]

theorem Utf16.drop_mark (order : Utf16.Order) (rest : List UInt8) :
    (Utf16.mark order ++ rest).drop 2 = rest := by
  cases order <;> rfl

theorem decodeMarked_mark (order : Utf16.Order) (rest : List UInt8) :
    decodeMarked (Utf16.mark order ++ rest) =
      (Utf16.decodeFrom order 2 rest).mapError .malformed := by
  unfold decodeMarked
  simp only [Utf16.order?_mark, Utf16.drop_mark]

theorem Utf16.two_le_length_encode (order : Utf16.Order) (h : cs ≠ []) :
    2 ≤ (Utf16.encode order cs).length := by
  have hunit : ∀ n, (order.octets n).length = 2 := by
    intro n
    cases order <;> rfl
  obtain ⟨c, cs, rfl⟩ := List.exists_cons_of_ne_nil h
  rw [Utf16.encode, List.flatMap_cons, List.length_append, Utf16.encodeChar]
  split
  · rw [hunit]
    omega
  · rw [List.length_append, hunit]
    omega

/-- Octets without a mark: none at all, some that would decode, or some that would not. -/
theorem decodeMarked_cases (h : Utf16.order? octets = none) :
    octets = [] ∧ decodeMarked octets = .ok [] ∨
    Unmarked octets ∧ decodeMarked octets = .error .missingMark ∨
    (∀ cs, octets ≠ Utf16.encode .little cs) ∧ ∃ m, decodeMarked octets = .error (.malformed m) := by
  cases hdecode : Utf16.decode .little octets with
  | error m =>
    refine .inr (.inr ⟨?_, m, by simp only [decodeMarked, h, hdecode]⟩)
    intro cs hcs
    rw [Utf16.decode, Utf16.decodeFrom_eq_ok_iff.mpr hcs] at hdecode
    cases hdecode
  | ok cs =>
    obtain rfl := Utf16.decodeFrom_eq_ok_iff.mp hdecode
    by_cases hcs : cs = []
    · subst hcs
      exact .inl ⟨rfl, rfl⟩
    · have hlength := Utf16.two_le_length_encode .little hcs
      refine .inr (.inl ⟨⟨h, cs, hcs, rfl⟩, ?_⟩)
      simp only [decodeMarked, h, hdecode, if_neg (Nat.not_lt.mpr hlength)]

theorem decodeMarked_eq_ok_iff : decodeMarked octets = .ok cs ↔ Reads utf16 octets cs := by
  constructor
  · intro h
    cases horder : Utf16.order? octets with
    | some order =>
      obtain ⟨rest, rfl⟩ := Utf16.order?_eq_some_iff.mp horder
      rw [decodeMarked_mark, mapError_eq_ok_iff, Utf16.decodeFrom_eq_ok_iff] at h
      subst h
      cases order with
      | little => exact .stored (.inl rfl)
      | big => exact .stored (.inr ⟨rfl, rfl⟩)
    | none =>
      rcases decodeMarked_cases horder with ⟨rfl, hempty⟩ | ⟨-, hmissing⟩ | ⟨-, m, hmalformed⟩
      · obtain rfl := Except.ok.inj (hempty.symm.trans h)
        exact .empty
      · cases hmissing.symm.trans h
      · cases hmalformed.symm.trans h
  · intro h
    cases h with
    | stored h => exact decode_of_stores h
    | empty => rfl

theorem decodeMarked_eq_missingMark_iff :
    decodeMarked octets = .error .missingMark ↔ Unmarked octets := by
  constructor
  · intro h
    cases horder : Utf16.order? octets with
    | some order =>
      obtain ⟨rest, rfl⟩ := Utf16.order?_eq_some_iff.mp horder
      rw [decodeMarked_mark] at h
      exact absurd h mapError_malformed_ne
    | none =>
      rcases decodeMarked_cases horder with ⟨-, hempty⟩ | ⟨hunmarked, -⟩ | ⟨-, m, hmalformed⟩
      · cases hempty.symm.trans h
      · exact hunmarked
      · cases hmalformed.symm.trans h
  · intro h
    obtain ⟨horder, cs, hcs, hoctets⟩ := h
    rcases decodeMarked_cases horder with ⟨hnil, -⟩ | ⟨-, hmissing⟩ | ⟨hnever, -⟩
    · have hlength := Utf16.two_le_length_encode .little hcs
      rw [← hoctets, hnil] at hlength
      cases hlength
    · exact hmissing
    · exact absurd hoctets (hnever cs)

/-- **Exactly the octets that store a text are read as it**, but for missing and incomplete marks. -/
theorem decode_eq_ok_iff {e : Encoding} : e.decode octets = .ok cs ↔ e.Reads octets cs := by
  constructor
  · intro h
    cases e with
    | utf8 =>
      obtain rfl := Utf8.decode_eq_ok_iff.mp (mapError_eq_ok_iff.mp h)
      exact .stored (.inl rfl)
    | utf8Signed => exact decodeSigned_eq_ok_iff.mp (mapError_eq_ok_iff.mp h)
    | ascii =>
      obtain ⟨hbelow, rfl⟩ := of_decodeAscii (mapError_eq_ok_iff.mp h)
      exact .stored (.inl (encodeBelow?_ofNat hbelow))
    | latin1 =>
      cases h
      exact .stored (.inl (encodeBelow?_ofNat fun b _ => b.toNat_lt))
    | utf16 => exact decodeMarked_eq_ok_iff.mp h
    | utf16le =>
      obtain rfl := Utf16.decodeFrom_eq_ok_iff.mp (mapError_eq_ok_iff.mp h)
      exact .stored (.inl rfl)
    | utf16be =>
      obtain rfl := Utf16.decodeFrom_eq_ok_iff.mp (mapError_eq_ok_iff.mp h)
      exact .stored (.inl rfl)
  · intro h
    cases h with
    | stored h => exact decode_of_stores h
    | unsigned hmark => exact mapError_eq_ok_iff.mpr (decodeSigned_eq_ok_iff.mpr (.unsigned hmark))
    | halfSigned hpart =>
      exact mapError_eq_ok_iff.mpr (decodeSigned_eq_ok_iff.mpr (.halfSigned hpart))
    | empty => rfl

/-- Only UTF-16 may lack a mark. -/
theorem decode_eq_missingMark_iff {e : Encoding} :
    e.decode octets = .error .missingMark ↔ e = utf16 ∧ Unmarked octets := by
  constructor
  · intro h
    cases e with
    | utf16 => exact ⟨rfl, decodeMarked_eq_missingMark_iff.mp h⟩
    | latin1 => cases h
    | utf8 => exact absurd h mapError_malformed_ne
    | utf8Signed => exact absurd h mapError_malformed_ne
    | ascii => exact absurd h mapError_malformed_ne
    | utf16le => exact absurd h mapError_malformed_ne
    | utf16be => exact absurd h mapError_malformed_ne
  · rintro ⟨rfl, hunmarked⟩
    exact decodeMarked_eq_missingMark_iff.mpr hunmarked

end Decode

end WordMachine.Encoding
