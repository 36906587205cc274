/-
  The text of JSON values made of plain strings: no character is escaped, and each is one octet.
-/
import MiniVault.Kit.Json

namespace Kit.Json

variable {F : Type}

/-! ## PlainText characters -/

/-- Written as it is, in one octet. -/
def isPlain (c : Char) : Bool := 32 ≤ c.toNat && c.toNat < 128 && c ≠ '"' && c ≠ '\\'

/-- A plain text. -/
def PlainText (s : List Char) : Prop := ∀ c ∈ s, isPlain c = true

instance (s : List Char) : Decidable (PlainText s) :=
  decidable_of_iff (s.all isPlain = true) List.all_eq_true

theorem PlainText.append {s t : List Char} (hs : PlainText s) (ht : PlainText t) :
    PlainText (s ++ t) :=
  fun c hc => (List.mem_append.1 hc).elim (hs c) (ht c)

theorem escape_plain {c : Char} (h : isPlain c = true) : escape (.char c) = [.char c] := by
  simp only [isPlain, Bool.and_eq_true, decide_eq_true_eq] at h
  obtain ⟨⟨⟨h32, -⟩, hquote⟩, hback⟩ := h
  have hcode : CodePoint.code (.char c) = c.toNat := rfl
  have hne : ∀ d : Char, c ≠ d → CodePoint.char c ≠ .char d := fun d hd heq =>
    hd (CodePoint.char.inj heq)
  unfold escape
  rw [hcode, if_neg (hne _ hquote), if_neg (hne _ hback), if_neg (by omega), if_neg (by omega),
    if_neg (by omega), if_neg (by omega), if_neg (by omega), if_neg (by omega)]

theorem quote_plain {s : List Char} (h : PlainText s) :
    quote (chars s) = chars ('"' :: (s ++ ['"'])) := by
  have hescape : (chars s).flatMap escape = chars s := by
    induction s with
    | nil => rfl
    | cons c s ih =>
      rw [chars, List.map_cons, List.flatMap_cons, escape_plain (h c List.mem_cons_self)]
      exact congrArg (CodePoint.char c :: ·) (ih fun d hd => h d (List.mem_cons_of_mem _ hd))
  rw [quote, hescape, chars, chars, List.map_cons, List.map_append]
  rfl

/-! ## Octets -/

/-- A text of characters that are one octet each. -/
def Ascii (s : List Char) : Prop := ∀ c ∈ s, c.toNat < 128

theorem Ascii.append {s t : List Char} (hs : Ascii s) (ht : Ascii t) : Ascii (s ++ t) :=
  fun c hc => (List.mem_append.1 hc).elim (hs c) (ht c)

theorem Ascii.cons {c : Char} {s : List Char} (hc : c.toNat < 128) (hs : Ascii s) :
    Ascii (c :: s) :=
  fun d hd => (List.mem_cons.1 hd).elim (fun heq => heq ▸ hc) (hs d)

theorem PlainText.ascii {s : List Char} (h : PlainText s) : Ascii s := by
  intro c hc
  have hplain := h c hc
  simp only [isPlain, Bool.and_eq_true, decide_eq_true_eq] at hplain
  exact hplain.1.1.2

theorem encodeStr_chars (s : List Char) : encodeStr (chars s) = some (Utf8.encode s) := by
  induction s with
  | nil => rfl
  | cons c s ih =>
    show (encodeStr (chars s)).map _ = _
    rw [ih]
    rfl

theorem length_encode_ascii {s : List Char} (h : Ascii s) : (Utf8.encode s).length = s.length := by
  induction s with
  | nil => rfl
  | cons c s ih =>
    rw [Utf8.encode_cons, Utf8.encodeChar_ascii (h c List.mem_cons_self), List.length_append,
      ih fun d hd => h d (List.mem_cons_of_mem _ hd), List.length_cons, List.length_cons,
      List.length_nil, Nat.add_comm]

/-! ## Objects -/

/-- The members of an object whose keys and values are strings. -/
def strMembers (ms : List (List Char × List Char)) : List (Str × Value F) :=
  ms.map fun m => (chars m.1, .str (chars m.2))

/-- The size of such an object: of each member, four quotes, a colon, and the comma or brace before
    it, and the closing brace. -/
def membersSize : List (List Char × List Char) → Nat
  | [] => 1
  | m :: ms => m.1.length + m.2.length + 6 + membersSize ms

theorem renderMembers_plain (ff : FloatFormat F) {ms : List (List Char × List Char)}
    (h : ∀ m ∈ ms, PlainText m.1 ∧ PlainText m.2) :
    ∃ t, renderMembers ff (strMembers ms) = chars t ∧ Ascii t ∧ t.length = membersSize ms := by
  induction ms with
  | nil => exact ⟨['}'], rfl, fun c hc => List.mem_singleton.1 hc ▸ by decide, rfl⟩
  | cons m ms ih =>
    obtain ⟨hk, hv⟩ := h m List.mem_cons_self
    obtain ⟨t, ht, hascii, hlen⟩ := ih fun m hm => h m (List.mem_cons_of_mem _ hm)
    refine ⟨',' :: '"' :: (m.1 ++ '"' :: ':' :: '"' :: (m.2 ++ '"' :: t)), ?_, ?_, ?_⟩
    · show renderMembers ff ((chars m.1, .str (chars m.2)) :: strMembers ms) = _
      rw [renderMembers, render, ht, quote_plain hk, quote_plain hv]
      simp [chars]
    · have hquote : '"'.toNat < 128 := by decide
      have hvalue := hv.ascii.append (hascii.cons hquote)
      have hkey := hk.ascii.append
        (((hvalue.cons hquote).cons (by decide : ':'.toNat < 128)).cons hquote)
      exact (hkey.cons hquote).cons (by decide)
    · simp only [List.length_cons, List.length_append, hlen, membersSize]
      omega

theorem render_plain (ff : FloatFormat F) {ms : List (List Char × List Char)} (hne : ms ≠ [])
    (h : ∀ m ∈ ms, PlainText m.1 ∧ PlainText m.2) :
    ∃ b, encodeStr (render ff (.obj (strMembers ms))) = some b ∧ b.length = membersSize ms := by
  obtain ⟨m, ms, rfl⟩ := List.exists_cons_of_ne_nil hne
  obtain ⟨t, ht, hascii, hlen⟩ := renderMembers_plain ff h
  -- the text differs from that of further members in the brace it starts with
  obtain ⟨c, t, rfl⟩ := List.exists_cons_of_ne_nil (l := t) (by
    rintro rfl
    simp only [List.length_nil, membersSize] at hlen
    omega)
  have htail : quote (chars m.1) ++ .char ':' :: (render ff (.str (chars m.2)) ++
      renderMembers ff (strMembers ms)) = chars t := (List.cons.inj ht).2
  refine ⟨Utf8.encode ('{' :: t), ?_, ?_⟩
  · rw [← encodeStr_chars]
    show encodeStr (render ff (.obj ((chars m.1, .str (chars m.2)) :: strMembers ms))) = _
    rw [render, htail]
    rfl
  · have htail : Ascii ('\x7b' :: t) :=
      Ascii.cons (by decide) fun d hd => hascii d (List.mem_cons_of_mem _ hd)
    rw [length_encode_ascii htail, ← hlen]
    rfl

theorem dumps_plain (ff : FloatFormat F) {ms : List (List Char × List Char)}
    (hsorted : ms.Pairwise fun a b => strLe (chars a.1) (chars b.1) = true) :
    dumps ff (.obj (strMembers ms)) = some (render ff (.obj (strMembers ms))) := by
  have hkeys : ∀ ms : List (List Char × List Char),
      sortKeysMembers (strMembers (F := F) ms) = strMembers ms := by
    intro ms
    induction ms with
    | nil => rfl
    | cons m ms ih => exact congrArg (_ :: ·) ih
  have hsort : sortMembers (strMembers (F := F) ms) = strMembers ms :=
    List.Pairwise.insertionSort_eq (List.pairwise_map.2 hsorted)
  have hwritable : ∀ ms : List (List Char × List Char),
      writableMembers (strMembers (F := F) ms) = true := by
    intro ms
    induction ms with
    | nil => rfl
    | cons m ms ih => exact ih
  have hvalue : (Value.obj (strMembers (F := F) ms)).sortKeys = .obj (strMembers ms) := by
    rw [Value.sortKeys, hkeys, hsort]
  rw [dumps, hvalue, if_pos (by rw [Value.writable, hwritable])]

end Kit.Json
