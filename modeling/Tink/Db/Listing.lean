import Tink.Db.Templates
import Tink.Lib.Wildcard

/-!
# Listing templates by name

`ListTemplates` (`server/dbserver_template.go`, `db/template.go`) turns the stars of the filter into the `%` of
`ILIKE` and leaves every other character as it is, so that `%` and `_` keep their meaning in `ILIKE`, where `_` stands
for any one character and is also a character of names.  The listing is what the filter says exactly if the filter has
neither, or matches no name at all (`listing_exact_iff`).

`ILIKE` is taken without an escape character, and ignores the case of the letters of ASCII, the only ones in names.
-/

namespace Tink.Db

open Pg Wildcard

/-- The characters are equal up to case. -/
def sameCase (c d : Char) : Bool := c.toLower == d.toLower

def likeToken (c : Char) : Token Char := if c = '%' then .any else if c = '_' then .one else .char c

/-- `name ILIKE pattern`. -/
def iLike (name pattern : String) : Bool := accepts sameCase (pattern.toList.map likeToken) name.toList

/-- The filter for the name of a request. -/
def nameFilter (name : String) : String :=
  if name ≠ "" then String.ofList (name.toList.map fun c => if c = '*' then '%' else c) else "%"

/-- What happens during one call: whether the database is ready, and the errors of the query and of `stream.Send`. -/
structure ListEnv where
  ready : Bool := true
  queryErr : Option String := none
  sendErr : Nat → Option String := fun _ => none

/-- The loop over the rows, from the one with number `k` on: those that are sent, and the error that ends it. -/
def sendRows (sendErr : Nat → Option String) :
    Nat → List (Sigma fun _ : UUID => TemplateRow) → List (Sigma fun _ : UUID => TemplateRow) × Option String
  | _, [] => ([], none)
  | k, row :: rows =>
    match sendErr k with
    | some e => ([], some e)
    | none => (row :: (sendRows sendErr (k + 1) rows).1, (sendRows sendErr (k + 1) rows).2)

/-- `DBServer.ListTemplates`: the rows that are sent, and the error it returns. -/
def listTemplates (env : ListEnv) (t : Templates) (name : String) :
    List (Sigma fun _ : UUID => TemplateRow) × Option String :=
  if env.ready = false then ([], some "DB is not ready")
  else
    match env.queryErr with
    | some e => ([], some e)
    | none => sendRows env.sendErr 0 (t.entries.filter fun e => iLike e.2.name (nameFilter name) && !e.2.deleted)

/-! ### What the filter says -/

def globToken (c : Char) : Token Char := if c = '*' then .any else .char c

/-- The name matches the filter, in which a star stands for any sequence of characters. -/
def globs (name filter : String) : Bool := accepts sameCase (filter.toList.map globToken) name.toList

/-- The names are such as the name column holds. -/
def NamesStored (t : Templates) : Prop :=
  ∀ e ∈ t.entries, e.2.name.length ≤ 200 ∧ ∀ c ∈ e.2.name.toList, isNameChar c = true

/-- The templates that are not deleted and match the filter are listed, all of them if it is empty, and no others. -/
def ListsExactly (t : Templates) (filter : String) : Prop :=
  (listTemplates {} t filter).2 = none ∧ ∀ e, e ∈ (listTemplates {} t filter).1 ↔
    e ∈ t.entries ∧ e.2.deleted = false ∧ (filter = "" ∨ globs e.2.name filter = true)

private theorem sendRows_all (k : Nat) (rows : List (Sigma fun _ : UUID => TemplateRow)) :
    sendRows (fun _ => none) k rows = (rows, none) := by
  induction rows generalizing k with
  | nil => rfl
  | cons row rows ih => simp [sendRows, ih]

private theorem listTemplates_default (t : Templates) (name : String) :
    listTemplates {} t name = (t.entries.filter fun e => iLike e.2.name (nameFilter name) && !e.2.deleted, none) := by
  simp [listTemplates, sendRows_all]

/-- The listing is exact if the two readings of the filter agree on the names of the table. -/
private theorem listsExactly_iff {t : Templates} {filter : String} :
    ListsExactly t filter ↔ ∀ e ∈ t.entries, e.2.deleted = false →
      (iLike e.2.name (nameFilter filter) = true ↔ filter = "" ∨ globs e.2.name filter = true) := by
  simp only [ListsExactly, listTemplates_default, List.mem_filter, Bool.and_eq_true, Bool.not_eq_true', true_and]
  constructor
  · intro h e he hlive
    have := h e
    simpa [he, hlive] using this
  · intro h e
    by_cases he : e ∈ t.entries
    · by_cases hlive : e.2.deleted = false
      · simp [he, hlive, h e he hlive]
      · simp [hlive]
    · simp [he]

/-! ### The two readings -/

private theorem isNameChar_of_sameCase {c d : Char} (h : sameCase c d = true) (hd : isNameChar d = true) :
    isNameChar c = true := by
  have hlower : c.toLower = d.toLower := by simpa [sameCase] using h
  have halpha : ∀ x : Char, x.isUpper = true ∨ x.isLower = true → isNameChar x = true := by
    intro x hx
    rcases hx with hx | hx
    · simp [isNameChar, Char.isAlphanum, isAlpha_eq, hx]
    · simp [isNameChar, Char.isAlphanum, isAlpha_eq, hx]
  cases hc : c.isUpper with
  | true => exact halpha c (Or.inl hc)
  | false =>
    rw [toLower_of_not_isUpper hc] at hlower
    cases hdu : d.isUpper with
    | true =>
      rw [hlower]
      exact halpha _ (Or.inr (isLower_toLower hdu))
    | false =>
      rw [hlower, toLower_of_not_isUpper hdu]
      exact hd

private theorem eq_of_sameCase {c d : Char} (hc : c.isAlpha = false) (h : sameCase c d = true) : d = c := by
  have hlower : c.toLower = d.toLower := by simpa [sameCase] using h
  rw [(toLower_eq_iff hc).2 rfl] at hlower
  exact (toLower_eq_iff hc).1 hlower.symm

private theorem iLike_empty (name : String) : iLike name (nameFilter "") = true := by
  have hnil : ([] : List Char) ∈ name.toList.tails := (List.mem_tails _ _).2 List.nil_suffix
  exact List.any_eq_true.2 ⟨[], hnil, rfl⟩

/-- The tokens of the filter as `ILIKE` reads it. -/
def listTokens (filter : String) : List (Token Char) :=
  filter.toList.map fun c => likeToken (if c = '*' then '%' else c)

private theorem iLike_nameFilter {name filter : String} (h : filter ≠ "") :
    iLike name (nameFilter filter) = accepts sameCase (listTokens filter) name.toList := by
  simp only [iLike, nameFilter, h, ne_eq, not_false_eq_true, if_true, String.toList_ofList, List.map_map, listTokens]
  rfl

private theorem char_mem_listTokens {filter : String} {c : Char} :
    .char c ∈ listTokens filter ↔ c ∈ filter.toList ∧ c ≠ '*' ∧ c ≠ '%' ∧ c ≠ '_' := by
  simp only [listTokens, List.mem_map, likeToken]
  constructor
  · rintro ⟨d, hd, htok⟩
    by_cases hstar : d = '*'
    · simp [hstar] at htok
    · by_cases hpercent : d = '%'
      · simp [hpercent] at htok
      · by_cases hunder : d = '_'
        · simp [hunder] at htok
        · simp only [hstar, hpercent, hunder, if_false, Token.char.injEq] at htok
          subst htok
          exact ⟨hd, hstar, hpercent, hunder⟩
  · rintro ⟨hc, hstar, hpercent, hunder⟩
    exact ⟨c, hc, by simp [hstar, hpercent, hunder]⟩

private theorem char_mem_globTokens {filter : String} {c : Char} :
    .char c ∈ filter.toList.map globToken ↔ c ∈ filter.toList ∧ c ≠ '*' := by
  simp only [List.mem_map, globToken]
  constructor
  · rintro ⟨d, hd, htok⟩
    by_cases hstar : d = '*'
    · simp [hstar] at htok
    · simp only [hstar, if_false, Token.char.injEq] at htok
      subst htok
      exact ⟨hd, hstar⟩
  · rintro ⟨hc, hstar⟩
    exact ⟨c, hc, by simp [hstar]⟩

/-- The number of characters that a name matched by the filter has at least. -/
def fixedChars (filter : String) : Nat := (filter.toList.filter fun c => c ≠ '*' ∧ c ≠ '%').length

private theorem fixed_listTokens (filter : String) : fixed (listTokens filter) = fixedChars filter := by
  unfold listTokens fixedChars
  induction filter.toList with
  | nil => rfl
  | cons c cs ih =>
    by_cases hstar : c = '*'
    · simpa [likeToken, hstar, fixed] using ih
    · by_cases hpercent : c = '%'
      · simpa [likeToken, hpercent, fixed] using ih
      · by_cases hunder : c = '_'
        · simpa [likeToken, hunder, fixed] using ih
        · simpa [likeToken, hstar, hpercent, hunder, fixed] using ih

private theorem fixedChars_le_globTokens (filter : String) :
    fixedChars filter ≤ fixed (filter.toList.map globToken) := by
  unfold fixedChars
  induction filter.toList with
  | nil => exact Nat.le_refl 0
  | cons c cs ih =>
    by_cases hstar : c = '*'
    · simpa [globToken, hstar, fixed] using ih
    · by_cases hpercent : c = '%'
      · simp only [globToken, hpercent, List.filter_cons, List.map_cons] at ih ⊢
        simp only [ne_eq, not_true_eq_false, and_false, decide_false, Bool.false_eq_true, if_false]
        exact ih.trans (Nat.le_succ _)
      · simpa [globToken, hstar, hpercent, fixed] using ih

/-- The filter has no wildcard of `ILIKE`. -/
def NoWildcard (filter : String) : Prop := ∀ c ∈ filter.toList, c ≠ '%' ∧ c ≠ '_'

/-- No name that can be stored matches the filter. -/
def Unmatched (filter : String) : Prop :=
  (∃ c ∈ filter.toList, c ≠ '*' ∧ c ≠ '%' ∧ c ≠ '_' ∧ isNameChar c = false) ∨ 200 < fixedChars filter

private theorem listTokens_of_noWildcard {filter : String} (h : NoWildcard filter) :
    listTokens filter = filter.toList.map globToken := by
  refine List.map_congr_left ?_
  intro c hc
  obtain ⟨hpercent, hunder⟩ := h c hc
  by_cases hstar : c = '*'
  · simp [likeToken, globToken, hstar]
  · simp [likeToken, globToken, hstar, hpercent, hunder]

/-- Of such a filter both readings match nothing. -/
private theorem not_accepts_of_unmatched {filter : String} (h : Unmatched filter) {name : String}
    (hlen : name.length ≤ 200) (hname : ∀ c ∈ name.toList, isNameChar c = true) :
    accepts sameCase (listTokens filter) name.toList = false ∧ globs name filter = false := by
  rcases h with ⟨c, hc, hstar, hpercent, hunder, hbad⟩ | hlong
  · have hno : ∀ p : List (Token Char), .char c ∈ p → accepts sameCase p name.toList = false := by
      intro p hp
      rw [← Bool.not_eq_true]
      intro hacc
      obtain ⟨d, hd, hsame⟩ := exists_of_accepts hacc hp
      rw [isNameChar_of_sameCase hsame (hname d hd)] at hbad
      cases hbad
    exact ⟨hno _ (char_mem_listTokens.2 ⟨hc, hstar, hpercent, hunder⟩), hno _ (char_mem_globTokens.2 ⟨hc, hstar⟩)⟩
  · have hno : ∀ p : List (Token Char), fixedChars filter ≤ fixed p → accepts sameCase p name.toList = false := by
      intro p hp
      rw [← Bool.not_eq_true]
      intro hacc
      have hle := fixed_le_of_accepts hacc
      rw [String.length_toList] at hle
      omega
    exact ⟨hno _ (fixed_listTokens filter).ge, hno _ (fixedChars_le_globTokens filter)⟩

/-- Every other filter with a wildcard of `ILIKE` matches a name there that it does not match otherwise: its
characters, with `a` for every `_`. -/
private theorem exists_misread {filter : String} (hwild : ¬ NoWildcard filter) (hun : ¬ Unmatched filter) :
    ∃ name : String, name.length ≤ 200 ∧ (∀ c ∈ name.toList, isNameChar c = true) ∧
      accepts sameCase (listTokens filter) name.toList = true ∧ globs name filter = false := by
  have hlegal : ∀ c ∈ fill 'a' (listTokens filter), isNameChar c = true ∧ c ≠ '_' := by
    intro c hc
    rcases mem_fill hc with rfl | hc
    · exact ⟨rfl, by decide⟩
    · obtain ⟨hmem, hstar, hpercent, hunder⟩ := char_mem_listTokens.1 hc
      refine ⟨?_, hunder⟩
      by_contra hbad
      exact hun (Or.inl ⟨c, hmem, hstar, hpercent, hunder, by simpa using hbad⟩)
  refine ⟨String.ofList (fill 'a' (listTokens filter)), ?_, ?_, ?_, ?_⟩
  · rw [← String.length_toList, String.toList_ofList, length_fill, fixed_listTokens]
    by_contra hlong
    exact hun (Or.inr (by omega))
  · intro c hc
    rw [String.toList_ofList] at hc
    exact (hlegal c hc).1
  · rw [String.toList_ofList]
    exact accepts_fill (fun c => by simp [sameCase]) 'a' _
  · -- otherwise the name would have a `%` or a `_`
    rw [← Bool.not_eq_true]
    intro hglob
    unfold globs at hglob
    rw [String.toList_ofList] at hglob
    obtain ⟨c, hc, hwild⟩ : ∃ c ∈ filter.toList, c = '%' ∨ c = '_' := by
      by_contra hnone
      refine hwild fun c hc => ⟨?_, ?_⟩
      · rintro rfl
        exact hnone ⟨_, hc, Or.inl rfl⟩
      · rintro rfl
        exact hnone ⟨_, hc, Or.inr rfl⟩
    rcases hwild with rfl | rfl
    · obtain ⟨d, hd, hsame⟩ := exists_of_accepts hglob (char_mem_globTokens.2 ⟨hc, by decide⟩)
      cases eq_of_sameCase rfl hsame
      exact absurd (hlegal _ hd).1 (by decide)
    · obtain ⟨d, hd, hsame⟩ := exists_of_accepts hglob (char_mem_globTokens.2 ⟨hc, by decide⟩)
      cases eq_of_sameCase rfl hsame
      exact (hlegal _ hd).2 rfl

/-- The listing is what the filter says, for all templates that can be stored, exactly if the filter has no `%` and no
`_`, or matches none of their names in either reading. -/
theorem listing_exact_iff (filter : String) :
    (∀ t : Templates, NamesStored t → ListsExactly t filter) ↔ NoWildcard filter ∨ Unmatched filter := by
  constructor
  · intro h
    by_contra hnot
    obtain ⟨hwild, hun⟩ := not_or.1 hnot
    have hne : filter ≠ "" := by
      rintro rfl
      exact hwild fun c hc => absurd hc (by simp)
    obtain ⟨name, hlen, hname, hlike, hglob⟩ := exists_misread hwild hun
    have hexact := listsExactly_iff.1 (h (AList.singleton UUID.zero { name := name, data := "" }) (by
      intro e he
      cases List.mem_singleton.1 he
      exact ⟨hlen, hname⟩)) ⟨UUID.zero, { name := name, data := "" }⟩ (List.mem_singleton_self _) rfl
    rw [iLike_nameFilter hne, hlike, hglob] at hexact
    simp [hne] at hexact
  · intro h t hstored
    rw [listsExactly_iff]
    intro e he _
    obtain ⟨hlen, hname⟩ := hstored e he
    by_cases hne : filter = ""
    · subst hne
      simp [iLike_empty]
    · rw [iLike_nameFilter hne]
      rcases h with hwild | hun
      · simp [listTokens_of_noWildcard hwild, globs, hne]
      · obtain ⟨h1, h2⟩ := not_accepts_of_unmatched hun hlen hname
        simp [h1, h2, hne]

/-- The filter `node_1` lists a template of another name. -/
theorem underscore_misread :
    let t : Templates := AList.singleton UUID.zero { name := "nodeA1", data := "" }
    NamesStored t ∧ (listTemplates {} t "node_1").1.map (fun e => e.2.name) = ["nodeA1"] ∧
      globs "nodeA1" "node_1" = false := by
  refine ⟨?_, by decide +kernel, by decide +kernel⟩
  intro e he
  cases List.mem_singleton.1 he
  exact ⟨by decide +kernel, List.all_eq_true.1 (by decide +kernel)⟩

end Tink.Db
