import WordMachine.Proofs.LineEnds
import WordMachine.Proofs.Reencoding

/-!
# Reading undoes storing

A source is a text in some encoding. Reading it gives the text back, with one kind of line end: every pair of
a carriage return and a line feed is replaced by a line feed, and then every carriage return that is left
(`Text.unified`). The replacing is defined on its own, in two passes; that the reader does it in one pass is
`foldNewlines_eq_replaceAll`.

A byte order mark is the character U+FEFF, stored in front of the text. So octets behind some marks store a
text behind as many such characters (`behindMarks_flatMap`), and how many marks a reader takes off is how
many of these characters are missing in what it gives.
-/

namespace WordMachine

/-! ## Line ends -/

namespace Text

/-- Replaces a text, from the left and wherever it occurs, by another one. The text to replace is not
empty. -/
def replaceAll (old new : List Char) : List Char → List Char
  | [] => []
  | c :: cs =>
    if old.isPrefixOf (c :: cs) then new ++ replaceAll old new (cs.drop (old.length - 1))
    else c :: replaceAll old new cs
termination_by cs => cs.length
decreasing_by
  · rw [List.length_drop, List.length_cons]
    omega
  · exact Nat.lt_succ_self _

theorem replaceAll_nil (old new : List Char) : replaceAll old new [] = [] := by
  rw [replaceAll]

theorem replaceAll_cons_of_absent {old : List Char} (new : List Char) {c : Char} {cs : List Char}
    (h : ¬ old <+: c :: cs) : replaceAll old new (c :: cs) = c :: replaceAll old new cs := by
  rw [replaceAll, if_neg (by rwa [List.isPrefixOf_iff_prefix])]

theorem replaceAll_append (a : Char) (old new rest : List Char) :
    replaceAll (a :: old) new (a :: old ++ rest) = new ++ replaceAll (a :: old) new rest := by
  have hprefix : (a :: old).isPrefixOf (a :: (old ++ rest)) = true := by
    rw [List.isPrefixOf_iff_prefix]
    exact List.prefix_append (a :: old) rest
  rw [List.cons_append, replaceAll, if_pos hprefix, List.length_cons, Nat.add_sub_cancel,
    List.drop_left]

/-- To replace one character is to replace it wherever it stands. -/
theorem replaceAll_singleton (a b : Char) (cs : List Char) :
    replaceAll [a] [b] cs = cs.map fun c => if c = a then b else c := by
  induction cs with
  | nil => rw [replaceAll_nil, List.map_nil]
  | cons c cs ih =>
    rw [List.map_cons]
    by_cases hc : c = a
    · subst hc
      rw [if_pos rfl, ← ih]
      exact replaceAll_append c [] [b] cs
    · have habsent : ¬ [a] <+: c :: cs := by
        intro h
        exact hc (List.cons_prefix_cons.mp h).1.symm
      rw [replaceAll_cons_of_absent [b] habsent, if_neg hc, ih]

/-- The reader makes the line ends of a text line feeds in one pass: that is to replace the pairs first,
and then the carriage returns that are left. -/
theorem foldNewlines_eq_replaceAll (cs : List Char) :
    foldNewlines cs = replaceAll ['\x0d'] ['\n'] (replaceAll ['\x0d', '\n'] ['\n'] cs) := by
  -- the second pass is a map, so only the first one is followed along the cases of the reader
  rw [replaceAll_singleton]
  induction cs using foldNewlines.induct with
  | case1 => rw [replaceAll_nil, foldNewlines, List.map_nil]
  | case2 cs ih =>
    have hpair := replaceAll_append '\x0d' ['\n'] ['\n'] cs
    simp only [List.cons_append, List.nil_append] at hpair
    rw [foldNewlines, hpair, List.map_cons, if_neg (by decide), ih]
  | case3 c cs hpair ih =>
    have habsent : ¬ ['\x0d', '\n'] <+: c :: cs := by
      rintro ⟨rest, hrest⟩
      obtain ⟨rfl, rfl⟩ := List.cons.inj hrest
      exact hpair rest rfl rfl
    rw [replaceAll_cons_of_absent ['\n'] habsent, List.map_cons, foldNewlines, ih]
    exact hpair

theorem not_mem_foldNewlines (cs : List Char) : '\x0d' ∉ foldNewlines cs := by
  rw [foldNewlines_eq_replaceAll, replaceAll_singleton, List.mem_map]
  rintro ⟨c, -, hc⟩
  split at hc
  case isTrue => cases hc
  case isFalse hne => exact hne hc

theorem foldNewlines_of_not_mem {cs : List Char} (h : '\x0d' ∉ cs) : foldNewlines cs = cs := by
  have happend := foldNewlines_append h []
  rwa [List.append_nil, foldNewlines, List.append_nil] at happend

/-- A text with every pair of a carriage return and a line feed replaced by a line feed, and then every
carriage return that is left. -/
def unified (text : String) : String :=
  String.ofList (replaceAll ['\x0d'] ['\n'] (replaceAll ['\x0d', '\n'] ['\n'] text.toList))

theorem unified_eq (text : String) : unified text = String.ofList (foldNewlines text.toList) := by
  rw [unified, foldNewlines_eq_replaceAll]

theorem not_mem_unified (text : String) : '\x0d' ∉ (unified text).toList := by
  rw [unified_eq, String.toList_ofList]
  exact not_mem_foldNewlines text.toList

theorem unified_of_not_mem {text : String} (h : '\x0d' ∉ text.toList) : unified text = text := by
  rw [unified_eq, foldNewlines_of_not_mem h, String.ofList_toList]

end Text

/-! ## Marks -/

namespace Encoding

/-- The character that a byte order mark stores. -/
def markChar : Char := '\ufeff'

theorem Utf8.encodeChar_markChar : encodeChar markChar = mark :=
  rfl

theorem Utf16.encodeChar_markChar (order : Order) : encodeChar order markChar = mark order :=
  rfl

/-- So many marks in front of octets. -/
def behindMarks (count : Nat) (mark octets : List UInt8) : List UInt8 :=
  (List.replicate count mark).flatten ++ octets

theorem behindMarks_succ (count : Nat) (mark octets : List UInt8) :
    behindMarks (count + 1) mark octets = mark ++ behindMarks count mark octets := by
  rw [behindMarks, List.replicate_succ, List.flatten_cons, List.append_assoc, behindMarks]

/-- Marks in front of octets store as many characters U+FEFF in front of the text. -/
theorem behindMarks_flatMap (encodeChar : Char → List UInt8) (count : Nat) (cs : List Char) :
    behindMarks count (encodeChar markChar) (cs.flatMap encodeChar) =
      (List.replicate count markChar ++ cs).flatMap encodeChar := by
  rw [List.flatMap_append, List.flatMap_replicate, behindMarks]

/-- The encoding of UTF-16 in a known order, which has no mark. -/
def Utf16.Order.encoding : Order → Encoding
  | .little => utf16le
  | .big => utf16be

section Marked

variable (count : Nat) (cs : List Char)

theorem utf8_stores_marks :
    utf8.Stores (List.replicate count markChar ++ cs)
      (behindMarks count Utf8.mark (Utf8.encode cs)) :=
  .inl (congrArg some (behindMarks_flatMap Utf8.encodeChar count cs).symm)

theorem utf8Signed_stores_marks :
    utf8Signed.Stores (List.replicate count markChar ++ cs)
      (behindMarks (count + 1) Utf8.mark (Utf8.encode cs)) := by
  have hmarks := behindMarks_flatMap Utf8.encodeChar count cs
  rw [behindMarks_succ, ← Utf8.encodeChar_markChar, Utf8.encode, hmarks]
  exact .inl rfl

theorem utf16Ordered_stores_marks (order : Utf16.Order) :
    order.encoding.Stores (List.replicate count markChar ++ cs)
      (behindMarks count (Utf16.mark order) (Utf16.encode order cs)) := by
  have hmarks := behindMarks_flatMap (Utf16.encodeChar order) count cs
  rw [← Utf16.encodeChar_markChar, Utf16.encode, hmarks]
  cases order with
  | little => exact .inl rfl
  | big => exact .inl rfl

theorem utf16_stores_marks (order : Utf16.Order) :
    utf16.Stores (List.replicate count markChar ++ cs)
      (behindMarks (count + 1) (Utf16.mark order) (Utf16.encode order cs)) := by
  have hmarks := behindMarks_flatMap (Utf16.encodeChar order) count cs
  rw [behindMarks_succ, ← Utf16.encodeChar_markChar, Utf16.encode, hmarks]
  cases order with
  | little => exact .inl rfl
  | big => exact .inr ⟨rfl, rfl⟩

end Marked

/-! ## What can be stored -/

/-- The first code point that an encoding does not have. -/
def bound : Encoding → Nat
  | ascii => 0x80
  | latin1 => 0x100
  | _ => 0x110000

theorem exists_encodeBelow?_iff {limit : Nat} {cs : List Char} :
    (∃ octets, encodeBelow? limit cs = some octets) ↔ ∀ c ∈ cs, c.toNat < limit := by
  constructor
  · rintro ⟨octets, h⟩
    exact (encodeBelow?_eq_some h).1
  · intro h
    unfold encodeBelow?
    rw [if_pos (by simpa using h)]
    exact ⟨_, rfl⟩

theorem stores_iff_of_ne {e : Encoding} (he : e ≠ utf16) {cs : List Char} {octets : List UInt8} :
    e.Stores cs octets ↔ e.encode? cs = some octets := by
  unfold Stores
  simp only [he, false_and, or_false]

/-- Exactly the texts of characters that an encoding has can be stored in it. -/
theorem exists_stores_iff (e : Encoding) (cs : List Char) :
    (∃ octets, e.Stores cs octets) ↔ ∀ c ∈ cs, c.toNat < e.bound := by
  have hscalar : ∀ c ∈ cs, c.toNat < 0x110000 := by
    intro c _
    have hc := toNat_scalar c
    omega
  cases e with
  | ascii =>
    refine (exists_congr fun octets => ?_).trans exists_encodeBelow?_iff
    exact stores_iff_of_ne (by decide)
  | latin1 =>
    refine (exists_congr fun octets => ?_).trans exists_encodeBelow?_iff
    exact stores_iff_of_ne (by decide)
  | _ => exact ⟨fun _ => hscalar, fun _ => ⟨_, .inl rfl⟩⟩

theorem Utf8.encodeChar_eq_utf8EncodeChar (c : Char) : encodeChar c = String.utf8EncodeChar c := by
  have hscalar := toNat_scalar c
  unfold encodeChar String.utf8EncodeChar continuation
  simp only [Char.toNat] at hscalar ⊢
  grind

/-- The octets of UTF-8 are those of the text itself. -/
theorem Utf8.encode_toList (text : String) : encode text.toList = text.toUTF8.data.toList := by
  have hchars : encodeChar = String.utf8EncodeChar := funext encodeChar_eq_utf8EncodeChar
  have htext : text.toUTF8 = (text.toList.flatMap String.utf8EncodeChar).toByteArray := by
    rw [String.toUTF8_eq_toByteArray, ← String.ofList_toList (s := text), String.toByteArray_ofList,
      String.toList_ofList]
    rfl
  rw [htext, List.data_toByteArray, List.toList_toArray, encode, hchars]

end Encoding

/-! ## Reading -/

namespace Source

/-- What octets are read as: a file that holds them at any path, and standard input, give the text. -/
def Gives (e : Encoding) (octets : List UInt8) (text : String) : Prop :=
  (∀ (files : Files) (path : String), hasNull path = false → files path = .ok octets →
    read files (some e.name) path = .ok text) ∧
  readInput (some e.name) octets = .ok text

theorem gives_of_stores {e : Encoding} {cs : List Char} {octets : List UInt8}
    (h : e.Stores cs octets) : Gives e octets (String.ofList (Text.foldNewlines cs)) := by
  have hdecode := Encoding.decode_of_stores h
  refine ⟨?_, readInput_of_decode e.ofName?_name e.hasNull_name hdecode⟩
  intro files path hpath hfile
  rw [read_of_opened e.hasNull_name hpath hfile]
  exact ofOctets_of_decode e.ofName?_name hdecode (.file path)

theorem gives_of_stores_marks {e : Encoding} {text : String} {count : Nat} {octets : List UInt8}
    (h : e.Stores (List.replicate count Encoding.markChar ++ text.toList) octets) :
    Gives e octets (String.ofList (List.replicate count Encoding.markChar) ++ Text.unified text) := by
  -- marks are no line ends, so the reader leaves those that are characters alone
  have hmarks : '\x0d' ∉ List.replicate count Encoding.markChar := by
    intro hmem
    exact absurd (List.eq_of_mem_replicate hmem) (by decide)
  have hgives := gives_of_stores h
  rwa [Text.foldNewlines_append hmarks, String.ofList_append, ← Text.unified_eq] at hgives

/-- **Reading undoes storing**, for every text.

* It can be stored in every form of Unicode. In ASCII and Latin-1 it can be if, and only if, all its
  characters are below U+0080 and U+0100.
* However it is stored, it is read with its line ends unified, from a file and from standard input.
* The text read has no carriage return, and a text without one is read as it is.
* Of any number of marks in front of the text, the encodings that have a mark take exactly one; all others
  are read as characters. -/
theorem reading_undoes_storing (text : String) :
    (∀ e : Encoding, (∃ octets, e.Stores text.toList octets) ↔
      ∀ c ∈ text.toList, c.toNat < e.bound) ∧
    (∀ (e : Encoding) (octets : List UInt8), e.Stores text.toList octets →
      Gives e octets (Text.unified text)) ∧
    Gives .utf8 text.toUTF8.data.toList (Text.unified text) ∧
    '\x0d' ∉ (Text.unified text).toList ∧
    ('\x0d' ∉ text.toList → Text.unified text = text) ∧
    ∀ (count : Nat) (kept : String),
      kept = String.ofList (List.replicate count Encoding.markChar) ++ Text.unified text →
      Gives .utf8 (Encoding.behindMarks count Encoding.Utf8.mark
        (Encoding.Utf8.encode text.toList)) kept ∧
      Gives .utf8Signed (Encoding.behindMarks (count + 1) Encoding.Utf8.mark
        (Encoding.Utf8.encode text.toList)) kept ∧
      ∀ order : Encoding.Utf16.Order,
        Gives order.encoding (Encoding.behindMarks count (Encoding.Utf16.mark order)
          (Encoding.Utf16.encode order text.toList)) kept ∧
        Gives .utf16 (Encoding.behindMarks (count + 1) (Encoding.Utf16.mark order)
          (Encoding.Utf16.encode order text.toList)) kept := by
  have hstores : ∀ (e : Encoding) (octets : List UInt8), e.Stores text.toList octets →
      Gives e octets (Text.unified text) := by
    intro e octets h
    rw [Text.unified_eq]
    exact gives_of_stores h
  refine ⟨fun e => e.exists_stores_iff text.toList, hstores, ?_, Text.not_mem_unified text,
    Text.unified_of_not_mem, ?_⟩
  · rw [← Encoding.Utf8.encode_toList]
    exact hstores .utf8 _ (.inl rfl)
  · rintro count kept rfl
    refine ⟨gives_of_stores_marks (Encoding.utf8_stores_marks count text.toList),
      gives_of_stores_marks (Encoding.utf8Signed_stores_marks count text.toList), fun order => ?_⟩
    exact ⟨gives_of_stores_marks (Encoding.utf16Ordered_stores_marks count text.toList order),
      gives_of_stores_marks (Encoding.utf16_stores_marks count text.toList order)⟩

end Source

end WordMachine
