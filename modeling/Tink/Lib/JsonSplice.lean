import Tink.Lib.JsonText

/-!
# Text put between the quotes of a JSON text

A program builds a JSON text by writing a text of its own, a string in quotes that it is given, and more text of its
own.  If the string holds a quote or a backslash, and the text is still read, then the string is not among the strings
of the value that is read (`not_mem_strings_splice`): an escape never gets longer by being read.

The proof counts the characters of the strings of a text (`tokens`), which do not depend on the structure around them.
-/

namespace Json

variable {d : Dialect}

/-! ### The length of a string -/

private theorem codeUnits_cons {c : Char} (hb : c ≠ '\\') (t : List Char) :
    codeUnits (c :: t) = if c.toNat < 32 then none else (codeUnits t).map fun units => .char c :: units := by
  rw [codeUnits.eq_def]
  simp only [hb, if_false]

private theorem codeUnits_length {raw : List Char} {units : List CodeUnit} (h : codeUnits raw = some units) :
    units.length ≤ raw.length ∧ ('\\' ∈ raw → units.length < raw.length) := by
  induction raw using codeUnits.induct generalizing units with
  | case1 =>
    cases h
    simp
  | case2 => cases h
  | case3 w x y z t ih =>
    rw [codeUnits.eq_def] at h
    simp only [if_true, Option.bind_eq_bind, Option.bind_eq_some_iff, Option.some.injEq] at h
    obtain ⟨n, -, units', hunits, rfl⟩ := h
    have hlen := (ih hunits).1
    simp only [List.length_cons]
    omega
  | case4 t ht =>
    rw [codeUnits.eq_def] at h
    simp only [if_true] at h
    cases h
  | case5 e t hu ih =>
    rw [codeUnits.eq_def] at h
    simp only [hu, if_true, if_false, Option.bind_eq_bind, Option.bind_eq_some_iff, Option.some.injEq] at h
    obtain ⟨x, -, units', hunits, rfl⟩ := h
    have hlen := (ih hunits).1
    simp only [List.length_cons]
    omega
  | case6 c t hb hc =>
    rw [codeUnits_cons hb, if_pos hc] at h
    cases h
  | case7 c t hb hc ih =>
    rw [codeUnits_cons hb, if_neg hc] at h
    obtain ⟨units', hunits, rfl⟩ := Option.map_eq_some_iff.1 h
    obtain ⟨hle, hlt⟩ := ih hunits
    refine ⟨by simpa using hle, ?_⟩
    intro hmem
    have hmem' : '\\' ∈ t := (List.mem_cons.1 hmem).resolve_left (Ne.symm hb)
    simpa using hlt hmem'

/-- Without a backslash, a character stands for itself. -/
private theorem codeUnits_plain {raw : List Char} (hb : '\\' ∉ raw) {units : List CodeUnit} :
    codeUnits raw = some units ↔ (∀ c ∈ raw, 32 ≤ c.toNat) ∧ units = raw.map CodeUnit.char := by
  induction raw generalizing units with
  | nil =>
    rw [codeUnits, Option.some.injEq]
    exact ⟨fun h => ⟨by simp, h.symm⟩, fun h => h.2.symm⟩
  | cons c t ih =>
    have hc : c ≠ '\\' := fun heq => hb (heq ▸ List.mem_cons_self)
    have ih := fun units => @ih (fun hmem => hb (List.mem_cons_of_mem c hmem)) units
    rw [codeUnits_cons hc, List.forall_mem_cons]
    by_cases hlow : c.toNat < 32
    · rw [if_pos hlow]
      refine iff_of_false nofun ?_
      rintro ⟨⟨hle, -⟩, -⟩
      omega
    · rw [if_neg hlow, Option.map_eq_some_iff]
      constructor
      · rintro ⟨units', hunits, rfl⟩
        obtain ⟨hall, rfl⟩ := (ih units').1 hunits
        exact ⟨⟨by omega, hall⟩, rfl⟩
      · rintro ⟨⟨-, hall⟩, rfl⟩
        exact ⟨_, (ih _).2 ⟨hall, rfl⟩, rfl⟩

private theorem decodeUnits_length {units : List CodeUnit} {s : List Char} (h : decodeUnits d units = some s) :
    s.length ≤ units.length := by
  induction units using decodeUnits.induct generalizing s with
  | case1 =>
    cases h
    simp
  | case2 c units ih =>
    rw [decodeUnits] at h
    obtain ⟨cs, hcs, rfl⟩ := Option.map_eq_some_iff.1 h
    have hlen := ih hcs
    simpa using hlen
  | case3 n m units hpair ih =>
    rw [decodeUnits, if_pos hpair] at h
    obtain ⟨cs, hcs, rfl⟩ := Option.map_eq_some_iff.1 h
    have hlen := ih hcs
    simp only [List.length_cons]
    omega
  | case4 n m units hpair ih =>
    rw [decodeUnits, if_neg hpair] at h
    simp only [Option.bind_eq_bind, Option.bind_eq_some_iff, Option.some.injEq] at h
    obtain ⟨c, -, cs, hcs, rfl⟩ := h
    have hlen := ih hcs
    simpa using hlen
  | case5 n units hnot ih =>
    rw [decodeUnits] at h
    · simp only [Option.bind_eq_bind, Option.bind_eq_some_iff, Option.some.injEq] at h
      obtain ⟨c, -, cs, hcs, rfl⟩ := h
      have hlen := ih hcs
      simpa using hlen
    · exact hnot

private theorem decodeUnits_chars (s : List Char) : decodeUnits d (s.map CodeUnit.char) = some s := by
  induction s with
  | nil => rfl
  | cons c s ih =>
    rw [List.map_cons, decodeUnits, ih]
    rfl

/-- Without a backslash, a string is what is written. -/
private theorem unescape_plain {raw s : List Char} (hb : '\\' ∉ raw) :
    unescape d raw = some s ↔ (∀ c ∈ raw, 32 ≤ c.toNat) ∧ s = raw := by
  simp only [unescape, Option.bind_eq_bind, Option.bind_eq_some_iff, codeUnits_plain hb]
  constructor
  · rintro ⟨units, ⟨hall, rfl⟩, hs⟩
    rw [decodeUnits_chars, Option.some.injEq] at hs
    exact ⟨hall, hs.symm⟩
  · rintro ⟨hall, rfl⟩
    exact ⟨_, ⟨hall, rfl⟩, decodeUnits_chars _⟩

/-- A string is what is written, or shorter. -/
private theorem unescape_length {raw s : List Char} (h : unescape d raw = some s) :
    (s = raw ∧ '\\' ∉ raw) ∨ s.length < raw.length := by
  by_cases hb : '\\' ∈ raw
  · right
    simp only [unescape, Option.bind_eq_bind, Option.bind_eq_some_iff] at h
    obtain ⟨units, hunits, hs⟩ := h
    exact lt_of_le_of_lt (decodeUnits_length hs) ((codeUnits_length hunits).2 hb)
  · left
    exact ⟨((unescape_plain hb).1 h).2, hb⟩

/-! ### The strings of a text -/

/-- The texts between the quotes. -/
def tokens : List Char → List (List Char)
  | [] => []
  | c :: t =>
    if c = '"' then
      match _h : rawString t with
      | none => []
      | some (raw, rest) => raw :: tokens rest
    else tokens t
termination_by t => t.length
decreasing_by
  · have hlen := congrArg List.length (rawString_eq_some.1 _h).1
    simp only [List.length_append, List.length_cons] at hlen ⊢
    omega
  · simp

private theorem tokens_cons {c : Char} (h : c ≠ '"') (t : List Char) : tokens (c :: t) = tokens t := by
  rw [tokens, if_neg h]

private theorem tokens_closed {raw : List Char} (h : closed raw = true) (rest : List Char) :
    tokens ('"' :: (raw ++ '"' :: rest)) = raw :: tokens rest := by
  have hraw : rawString (raw ++ '"' :: rest) = some (raw, rest) := rawString_eq_some.2 ⟨rfl, h⟩
  rw [tokens, if_pos rfl]
  split
  · rename_i hnone
    rw [hraw] at hnone
    cases hnone
  · rename_i raw' rest' hsome
    rw [hraw] at hsome
    cases hsome
    rfl

/-- The strings of the text are those, whatever follows. -/
def Lexes (x : List Char) (toks : List (List Char)) : Prop := ∀ rest, tokens (x ++ rest) = toks ++ tokens rest

private theorem Lexes.append {x y : List Char} {a b : List (List Char)} (hx : Lexes x a) (hy : Lexes y b) :
    Lexes (x ++ y) (a ++ b) := by
  intro rest
  rw [List.append_assoc, hx, hy, List.append_assoc]

private theorem lexes_of_no_quote {x : List Char} (h : '"' ∉ x) : Lexes x [] := by
  intro rest
  induction x with
  | nil => rfl
  | cons c x ih =>
    have hc : c ≠ '"' := fun heq => h (heq ▸ List.mem_cons_self)
    rw [List.cons_append, tokens_cons hc, ih (fun hmem => h (List.mem_cons_of_mem c hmem))]

private theorem tokens_of_no_quote {x : List Char} (h : '"' ∉ x) : tokens x = [] := by
  have hlex := lexes_of_no_quote h []
  rw [List.append_nil, List.nil_append, tokens] at hlex
  exact hlex

private theorem lexes_quoted {raw : List Char} (h : closed raw = true) : Lexes ('"' :: (raw ++ ['"'])) [raw] := by
  intro rest
  rw [List.cons_append, List.append_assoc, List.singleton_append, tokens_closed h]
  rfl

private theorem lexes_ws {w : List Char} (h : Ws w) : Lexes w [] := by
  refine lexes_of_no_quote ?_
  intro hmem
  cases h _ hmem

private theorem Lexes.cons {c : Char} {x : List Char} {toks : List (List Char)} (hc : c ≠ '"') (h : Lexes x toks) :
    Lexes (c :: x) toks :=
  Lexes.append (x := [c]) (a := []) (lexes_of_no_quote (by simpa using Ne.symm hc)) h

/-- The strings of the text are strings of the dialect, and the given ones are among them. -/
def Holds (d : Dialect) (x : List Char) (strings : List String) : Prop :=
  ∃ toks, Lexes x toks ∧ (∀ raw ∈ toks, closed raw = true ∧ (unescape d raw).isSome = true) ∧
    ∀ s ∈ strings, ∃ raw ∈ toks, unescape d raw = some s.toList

private theorem Holds.append {x y : List Char} {a b : List String} (hx : Holds d x a) (hy : Holds d y b) :
    Holds d (x ++ y) (a ++ b) := by
  obtain ⟨ta, hlexa, hreada, hina⟩ := hx
  obtain ⟨tb, hlexb, hreadb, hinb⟩ := hy
  refine ⟨ta ++ tb, hlexa.append hlexb, ?_, ?_⟩
  · intro raw hraw
    rcases List.mem_append.1 hraw with hraw | hraw
    · exact hreada raw hraw
    · exact hreadb raw hraw
  · intro s hs
    rcases List.mem_append.1 hs with hs | hs
    · obtain ⟨raw, hraw, hs⟩ := hina s hs
      exact ⟨raw, List.mem_append_left _ hraw, hs⟩
    · obtain ⟨raw, hraw, hs⟩ := hinb s hs
      exact ⟨raw, List.mem_append_right _ hraw, hs⟩

private theorem holds_of_lexes_nil {x : List Char} (h : Lexes x []) : Holds d x [] := ⟨[], h, by simp, by simp⟩

private theorem holds_quoted {s : String} {x : List Char} (h : Quoted d s x) : Holds d x [s] := by
  obtain ⟨raw, rfl, hclosed, hs⟩ := h
  refine ⟨[raw], lexes_quoted hclosed, ?_, ?_⟩
  · simp [hclosed, hs]
  · simp [hs]

private theorem Holds.mono {x : List Char} {a b : List String} (h : Holds d x a) (hsub : b ⊆ a) : Holds d x b := by
  obtain ⟨toks, hlex, hread, hin⟩ := h
  exact ⟨toks, hlex, hread, fun s hs => hin s (hsub hs)⟩

private theorem Holds.of_cons {c : Char} {x : List Char} {a : List String} (hc : c ≠ '"') (h : Holds d (c :: x) a) :
    Holds d x a := by
  obtain ⟨toks, hlex, hrest⟩ := h
  refine ⟨toks, ?_, hrest⟩
  intro rest
  rw [← hlex rest, List.cons_append, tokens_cons hc]

private theorem holds_items {items : List (Value Number)}
    (hitems : ∀ v ∈ items, ∀ x, Spells d v x → Holds d x v.strings)
    {x : List Char} (h : SpellsItems d items x) : Holds d x (itemStrings items) := by
  induction items generalizing x with
  | nil =>
    cases h
    exact holds_of_lexes_nil (lexes_of_no_quote (by simp))
  | cons v items ih =>
    obtain ⟨w, y, w', rest, rfl, hw, hv, hw', hrest⟩ := h
    have hcomma : Holds d (',' :: w) [] := holds_of_lexes_nil (Lexes.cons (by decide) (lexes_ws hw))
    have hvalue := hitems v List.mem_cons_self y hv
    have htail := (holds_of_lexes_nil (lexes_ws hw')).append
      (ih (fun u hu => hitems u (List.mem_cons_of_mem v hu)) hrest)
    exact hcomma.append (hvalue.append htail)

private theorem holds_fields {fields : List (String × Value Number)}
    (hfields : ∀ f ∈ fields, ∀ x, Spells d f.2 x → Holds d x f.2.strings) {x : List Char}
    (h : SpellsFields d fields x) :
    Holds d x (fieldStrings fields) := by
  induction fields generalizing x with
  | nil =>
    cases h
    exact holds_of_lexes_nil (lexes_of_no_quote (by simp))
  | cons f fields ih =>
    obtain ⟨k, v⟩ := f
    obtain ⟨w, key, w₁, w₂, y, w₃, rest, rfl, hw, hkey, hw₁, hw₂, hv, hw₃, hrest⟩ := h
    have hcomma : Holds d (',' :: w) [] := holds_of_lexes_nil (Lexes.cons (by decide) (lexes_ws hw))
    have hcolon : Holds d (':' :: w₂) [] := holds_of_lexes_nil (Lexes.cons (by decide) (lexes_ws hw₂))
    have hkey' : Holds d key [] := (holds_quoted hkey).mono (by simp)
    have hvalue := hfields (k, v) List.mem_cons_self y hv
    have htail := (holds_of_lexes_nil (lexes_ws hw₃)).append
      (ih (fun u hu => hfields u (List.mem_cons_of_mem _ hu)) hrest)
    exact hcomma.append (hkey'.append
      ((holds_of_lexes_nil (lexes_ws hw₁)).append (hcolon.append (hvalue.append htail))))

/-- The strings of a value are among those of the text. -/
private theorem holds_of_spells (v : Value Number) : ∀ x, Spells d v x → Holds d x v.strings := by
  induction v using Value.induct with
  | null =>
    intro x h
    cases h
    exact holds_of_lexes_nil (lexes_of_no_quote (by decide))
  | bool b =>
    intro x h
    cases b with
    | true =>
      cases h
      exact holds_of_lexes_nil (lexes_of_no_quote (by decide))
    | false =>
      cases h
      exact holds_of_lexes_nil (lexes_of_no_quote (by decide))
  | num n =>
    intro x h
    cases h
    refine holds_of_lexes_nil (lexes_of_no_quote ?_)
    intro hmem
    cases n.chars.1 _ hmem
  | str s =>
    intro x h
    exact holds_quoted h
  | arr items ih =>
    rintro x ⟨body, rfl, hbody⟩
    refine Holds.append (x := ['[']) (a := []) (holds_of_lexes_nil (lexes_of_no_quote (by decide))) ?_
    have hclose : Holds d [']'] [] := holds_of_lexes_nil (lexes_of_no_quote (by decide))
    rcases hbody with ⟨rfl, hws⟩ | ⟨-, hitems⟩
    · exact (holds_of_lexes_nil (lexes_ws hws)).append hclose
    · have hbody := ((holds_items ih hitems).of_cons (by decide)).append hclose
      rwa [List.append_nil] at hbody
  | obj fields ih =>
    rintro x ⟨body, rfl, hbody⟩
    refine Holds.append (x := ['\x7b']) (a := []) (holds_of_lexes_nil (lexes_of_no_quote (by decide))) ?_
    have hclose : Holds d ['\x7d'] [] := holds_of_lexes_nil (lexes_of_no_quote (by decide))
    rcases hbody with ⟨rfl, hws⟩ | ⟨-, hfields⟩
    · exact (holds_of_lexes_nil (lexes_ws hws)).append hclose
    · have hbody := ((holds_fields ih hfields).of_cons (by decide)).append hclose
      rwa [List.append_nil] at hbody

/-- The strings of a text that is read. -/
private theorem tokens_of_parse {t : List Char} {v : Value Number} (h : parse d t = some v) :
    (∀ raw ∈ tokens t, closed raw = true ∧ (unescape d raw).isSome = true) ∧
      ∀ s ∈ v.strings, ∃ raw ∈ tokens t, unescape d raw = some s.toList := by
  obtain ⟨w, x, w', rfl, hw, hspell, hw'⟩ := parse_eq_some.1 h
  obtain ⟨toks, hlex, hread, hin⟩ := holds_of_spells v x hspell
  have htokens : tokens (w ++ (x ++ w')) = toks := by
    have hend : '"' ∉ w' := by
      intro hmem
      cases hw' _ hmem
    rw [lexes_ws hw, hlex, tokens_of_no_quote hend, List.append_nil, List.nil_append]
  rw [htokens]
  exact ⟨hread, hin⟩

/-! ### The text around a string -/

/-- The strings of a text are closed and have no escapes; the flag says that it starts in a string. -/
def plain : Bool → List Char → Bool
  | inside, [] => !inside
  | inside, c :: t =>
    if c = '"' then plain (!inside) t
    else if c = '\\' then false
    else plain inside t

/-- No quote and no backslash. -/
def Plain (s : List Char) : Prop := '"' ∉ s ∧ '\\' ∉ s

private theorem closed_of_plain {s : List Char} (h : Plain s) : closed s = true := by
  induction s with
  | nil => rfl
  | cons c s ih =>
    have hq : c ≠ '"' := fun heq => h.1 (heq ▸ List.mem_cons_self)
    have hb : c ≠ '\\' := fun heq => h.2 (heq ▸ List.mem_cons_self)
    rw [closed_cons hq hb]
    exact ih ⟨fun hmem => h.1 (List.mem_cons_of_mem c hmem), fun hmem => h.2 (List.mem_cons_of_mem c hmem)⟩

private theorem plain_of_closed {s : List Char} (h : closed s = true) (hb : '\\' ∉ s) : Plain s := by
  induction s with
  | nil => exact ⟨by simp, by simp⟩
  | cons c s ih =>
    have hc : c ≠ '\\' := fun heq => hb (heq ▸ List.mem_cons_self)
    have hq : c ≠ '"' := by
      rintro rfl
      rw [closed_quote] at h
      cases h
    rw [closed_cons hq hc] at h
    have hplain := ih h (fun hmem => hb (List.mem_cons_of_mem c hmem))
    exact ⟨List.not_mem_cons_of_ne_of_not_mem (Ne.symm hq) hplain.1, hb⟩

/-- A text that starts in a string has an end of it. -/
private theorem exists_of_plain_inside {t : List Char} (h : plain true t = true) :
    ∃ raw rest, t = raw ++ '"' :: rest ∧ Plain raw ∧ plain false rest = true := by
  induction t with
  | nil => cases h
  | cons c t ih =>
    rw [plain] at h
    split at h
    · rename_i hq
      subst hq
      exact ⟨[], t, rfl, ⟨by simp, by simp⟩, h⟩
    · split at h
      · cases h
      · rename_i hq hb
        obtain ⟨raw, rest, rfl, hplain, hrest⟩ := ih h
        refine ⟨c :: raw, rest, rfl, ⟨?_, ?_⟩, hrest⟩
        · exact List.not_mem_cons_of_ne_of_not_mem (Ne.symm hq) hplain.1
        · exact List.not_mem_cons_of_ne_of_not_mem (Ne.symm hb) hplain.2

private theorem lexes_of_plain (n : Nat) : ∀ t : List Char, t.length ≤ n → plain false t = true →
    ∃ toks, Lexes t toks ∧ ∀ raw ∈ toks, Plain raw := by
  induction n with
  | zero =>
    intro t ht _
    rw [List.length_eq_zero_iff.1 (Nat.le_zero.1 ht)]
    exact ⟨[], lexes_of_no_quote (by simp), by simp⟩
  | succ n ih =>
    intro t ht h
    cases t with
    | nil => exact ⟨[], lexes_of_no_quote (by simp), by simp⟩
    | cons c t =>
      rw [List.length_cons] at ht
      rw [plain] at h
      split at h
      · rename_i hq
        subst hq
        obtain ⟨raw, rest, rfl, hraw, hrest⟩ := exists_of_plain_inside h
        simp only [List.length_append, List.length_cons] at ht
        obtain ⟨toks, hlex, hplain⟩ := ih rest (by omega) hrest
        refine ⟨raw :: toks, ?_, List.forall_mem_cons.2 ⟨hraw, hplain⟩⟩
        have hquoted := (lexes_quoted (closed_of_plain hraw)).append hlex
        rwa [List.cons_append, List.append_assoc] at hquoted
      · split at h
        · cases h
        · rename_i hq hb
          obtain ⟨toks, hlex, hplain⟩ := ih t (by omega) h
          exact ⟨toks, hlex.cons hq, hplain⟩

private theorem eq_or_exists_of_last_quote {a p raw rest : List Char}
    (hp : '"' ∉ p) (h : a ++ '"' :: p = raw ++ '"' :: rest) :
    (raw = a ∧ rest = p) ∨ ∃ b, a = raw ++ '"' :: b ∧ rest = b ++ '"' :: p := by
  induction raw generalizing a with
  | nil =>
    cases a with
    | nil =>
      cases h
      exact Or.inl ⟨rfl, rfl⟩
    | cons c a =>
      cases h
      exact Or.inr ⟨a, rfl, rfl⟩
  | cons e raw ih =>
    cases a with
    | nil =>
      cases h
      exact absurd (List.mem_append_right raw List.mem_cons_self) hp
    | cons c a =>
      obtain ⟨rfl, heq⟩ := List.cons.inj h
      rcases ih heq with ⟨rfl, rfl⟩ | ⟨b, rfl, rfl⟩
      · exact Or.inl ⟨rfl, rfl⟩
      · exact Or.inr ⟨b, rfl, rfl⟩

/-- The strings of a text with one last quote are shorter than what stands in front of it. -/
private theorem length_of_mem_tokens {p : List Char} (hp : '"' ∉ p) (n : Nat) : ∀ a : List Char, a.length ≤ n →
    ∀ raw ∈ tokens (a ++ '"' :: p), raw.length < a.length := by
  have hopen : tokens ('"' :: p) = [] := by
    rw [tokens, if_pos rfl]
    split
    · rfl
    · rename_i raw rest hsome
      obtain ⟨rfl, -⟩ := rawString_eq_some.1 hsome
      exact absurd (List.mem_append_right raw List.mem_cons_self) hp
  induction n with
  | zero =>
    intro a ha raw hraw
    rw [List.length_eq_zero_iff.1 (Nat.le_zero.1 ha), List.nil_append, hopen] at hraw
    cases hraw
  | succ n ih =>
    intro a ha raw hraw
    cases a with
    | nil =>
      rw [List.nil_append, hopen] at hraw
      cases hraw
    | cons c a =>
      rw [List.length_cons] at ha ⊢
      by_cases hc : c = '"'
      · subst hc
        rw [List.cons_append, tokens, if_pos rfl] at hraw
        split at hraw
        · cases hraw
        · rename_i raw' rest hsome
          obtain ⟨heq, -⟩ := rawString_eq_some.1 hsome
          -- the string ends at the last quote, or at one in front of it
          rcases eq_or_exists_of_last_quote hp heq with ⟨rfl, rfl⟩ | ⟨b, rfl, rfl⟩
          · rw [tokens_of_no_quote hp, List.mem_singleton] at hraw
            rw [hraw]
            omega
          · simp only [List.length_append, List.length_cons] at ha ⊢
            rcases List.mem_cons.1 hraw with rfl | hraw
            · omega
            · have hlt := ih b (by omega) raw hraw
              omega
      · rw [List.cons_append, tokens_cons hc] at hraw
        have hlt := ih a (by omega) raw hraw
        omega

/-- A string with a quote or a backslash, put between the quotes of a text, is not one of the strings that are
read. -/
theorem not_mem_strings_splice {pre m p : List Char} (hpre : plain false pre = true) (hp : '"' ∉ p) (hm : ¬ Plain m)
    {v : Value Number} (h : parse d (pre ++ '"' :: (m ++ '"' :: p)) = some v) : String.ofList m ∉ v.strings := by
  intro hmem
  obtain ⟨hread, hin⟩ := tokens_of_parse h
  obtain ⟨raw, hraw, hs⟩ := hin _ hmem
  rw [String.toList_ofList] at hs
  obtain ⟨hclosed, -⟩ := hread raw hraw
  have hself : ¬ (m = raw ∧ '\\' ∉ raw) := by
    rintro ⟨rfl, hb⟩
    exact hm (plain_of_closed hclosed hb)
  have hlt : m.length < raw.length := (unescape_length hs).resolve_left hself
  obtain ⟨keys, hlex, hkeys⟩ := lexes_of_plain pre.length pre le_rfl hpre
  rw [hlex] at hraw
  rcases List.mem_append.1 hraw with hraw | hraw
  · have heq := ((unescape_plain (hkeys raw hraw).2).1 hs).2
    rw [heq] at hlt
    omega
  · have hlen := length_of_mem_tokens hp ('"' :: m).length ('"' :: m) le_rfl raw hraw
    rw [List.length_cons] at hlen
    omega

/-- A string without them is read as it is, if it has no control characters. -/
theorem quoted_of_plain {m : List Char} (hm : Plain m) (hctl : ∀ c ∈ m, 32 ≤ c.toNat) :
    Quoted d (String.ofList m) ('"' :: (m ++ ['"'])) := by
  refine ⟨m, rfl, closed_of_plain hm, ?_⟩
  rw [String.toList_ofList]
  exact (unescape_plain hm.2).2 ⟨hctl, rfl⟩

theorem chars_of_parse_splice {pre m p : List Char} (hpre : plain false pre = true) (hm : Plain m) {v : Value Number}
    (h : parse d (pre ++ '"' :: (m ++ '"' :: p)) = some v) : ∀ c ∈ m, 32 ≤ c.toNat := by
  obtain ⟨keys, hlex, -⟩ := lexes_of_plain pre.length pre le_rfl hpre
  have hmem : m ∈ tokens (pre ++ '"' :: (m ++ '"' :: p)) := by
    rw [hlex, tokens_closed (closed_of_plain hm)]
    simp
  obtain ⟨s, hs⟩ := Option.isSome_iff_exists.1 ((tokens_of_parse h).1 m hmem).2
  exact ((unescape_plain hm.2).1 hs).1

end Json
