import Mathlib.Data.List.Infix

/-!
# Formatting without operands

Go's `fmt.Sprintf` on a format and no operands, as `doPrintf` computes it: text is copied, `%%` is a percent sign, and
every other directive is answered with a complaint, after its flags, index, width and precision.  A text without a
percent sign is its own format (`sprintf_of_not_mem`).
-/

namespace GoFormat

/-- `parsenum`: whether there is a number, and what follows it; past a million, nothing does. -/
def parseNum (num : Nat) (isNum : Bool) : List Char → Bool × List Char
  | [] => (isNum, [])
  | c :: cs =>
    if c.isDigit then
      if 1000000 < num then (false, []) else parseNum (num * 10 + (c.toNat - '0'.toNat)) true cs
    else (isNum, c :: cs)

/-- A directive as far as it is read: what it has written, what is left to read, whether its indices were good, and
whether the last thing read was an index. -/
structure Directive where
  out : List Char := []
  rest : List Char
  good : Bool := true
  afterIndex : Bool := false

/-- `parseArgNumber` of the text that follows a bracket: what follows the index, and whether it is a number. -/
def parseArgNumber (cs : List Char) : List Char × Bool :=
  match cs.dropWhile (· ≠ ']') with
  | _ :: rest => if cs.length < 2 then (cs, false) else (rest, parseNum 0 false (cs.takeWhile (· ≠ ']')) = (true, []))
  | [] => (cs, false)

namespace Directive

/-- `argNumber`; there is no operand that an index could mean. -/
def argNumber (d : Directive) : Directive :=
  match d.rest with
  | '[' :: cs => { d with rest := (parseArgNumber cs).1, good := false, afterIndex := (parseArgNumber cs).2 }
  | _ => { d with afterIndex := false }

def width (d : Directive) : Directive :=
  match d.rest with
  | '*' :: cs => { d with out := d.out ++ "%!(BADWIDTH)".toList, rest := cs, afterIndex := false }
  | cs => { d with rest := (parseNum 0 false cs).2, good := d.good && !(d.afterIndex && (parseNum 0 false cs).1) }

def precision (d : Directive) : Directive :=
  match d.rest with
  | '.' :: cs =>
    let d := { d with rest := cs, good := d.good && !d.afterIndex }.argNumber
    match d.rest with
    | '*' :: cs => { d with out := d.out ++ "%!(BADPREC)".toList, rest := cs, afterIndex := false }
    | cs => { d with rest := (parseNum 0 false cs).2 }
  | _ => d

def verb (d : Directive) : List Char × List Char :=
  match d.rest with
  | [] => (d.out ++ "%!(NOVERB)".toList, [])
  | '%' :: cs => (d.out ++ ['%'], cs)
  | c :: cs => (d.out ++ "%!".toList ++ [c] ++ (if d.good then "(MISSING)" else "(BADINDEX)").toList, cs)

end Directive

/-- One directive, after its percent sign: what it writes, and what is left to read. -/
def directive (cs : List Char) : List Char × List Char :=
  let d := Directive.precision (Directive.width
    (Directive.argNumber ⟨[], cs.dropWhile (· ∈ "#0+- ".toList), true, false⟩))
  (if d.afterIndex then d else d.argNumber).verb

private theorem parseNum_length (num : Nat) (isNum : Bool) (cs : List Char) :
    (parseNum num isNum cs).2.length ≤ cs.length := by
  induction cs generalizing num isNum with
  | nil => simp [parseNum]
  | cons c cs ih =>
    rw [parseNum]
    split
    · split
      · simp
      · exact (ih _ _).trans (Nat.le_succ _)
    · exact le_refl _

private theorem parseArgNumber_length (cs : List Char) : (parseArgNumber cs).1.length ≤ cs.length := by
  unfold parseArgNumber
  split
  · rename_i rest h
    split
    · exact le_refl _
    · have := (List.dropWhile_suffix (p := (· ≠ ']')) (l := cs)).length_le
      rw [h, List.length_cons] at this
      exact (Nat.le_succ _).trans this
  · exact le_refl _

private theorem argNumber_length (d : Directive) : d.argNumber.rest.length ≤ d.rest.length := by
  unfold Directive.argNumber
  split
  · rename_i cs h
    rw [h, List.length_cons]
    exact (parseArgNumber_length cs).trans (Nat.le_succ _)
  · exact le_refl _

private theorem width_length (d : Directive) : d.width.rest.length ≤ d.rest.length := by
  unfold Directive.width
  split
  · rename_i cs h
    rw [h, List.length_cons]
    exact Nat.le_succ _
  · exact parseNum_length 0 false _

private theorem precision_length (d : Directive) : d.precision.rest.length ≤ d.rest.length := by
  unfold Directive.precision
  split
  · rename_i cs h
    have hindex := argNumber_length { d with rest := cs, good := d.good && !d.afterIndex }
    rw [h, List.length_cons]
    dsimp only at hindex ⊢
    split
    · rename_i cs' h'
      rw [h', List.length_cons] at hindex
      dsimp only
      omega
    · exact ((parseNum_length 0 false _).trans hindex).trans (Nat.le_succ _)
  · exact le_refl _

private theorem verb_length (d : Directive) : d.verb.2.length ≤ d.rest.length := by
  unfold Directive.verb
  split
  · exact Nat.zero_le _
  all_goals
    rename_i h
    rw [h, List.length_cons]
    exact Nat.le_succ _

private theorem directive_length (cs : List Char) : (directive cs).2.length ≤ cs.length := by
  have hflags := (List.dropWhile_suffix (p := (· ∈ "#0+- ".toList)) (l := cs)).length_le
  have hindex := argNumber_length ⟨[], cs.dropWhile (· ∈ "#0+- ".toList), true, false⟩
  have hprec := (precision_length (Directive.width (Directive.argNumber
    ⟨[], cs.dropWhile (· ∈ "#0+- ".toList), true, false⟩))).trans (width_length _)
  refine (verb_length _).trans ?_
  refine le_trans ?_ (hprec.trans (hindex.trans hflags))
  split
  · exact le_refl _
  · exact argNumber_length _

/-- `doPrintf`. -/
def format : List Char → List Char
  | [] => []
  | c :: cs => if c = '%' then (directive cs).1 ++ format (directive cs).2 else c :: format cs
termination_by cs => cs.length
decreasing_by
  · have := directive_length cs
    simp only [List.length_cons]
    omega
  · simp

def sprintf (text : String) : String := String.ofList (format text.toList)

private theorem format_of_not_mem {cs : List Char} (h : '%' ∉ cs) : format cs = cs := by
  induction cs with
  | nil => rw [format]
  | cons c cs ih =>
    rw [List.mem_cons, not_or] at h
    rw [format, if_neg (Ne.symm h.1), ih h.2]

theorem sprintf_of_not_mem {text : String} (h : '%' ∉ text.toList) : sprintf text = text := by
  rw [sprintf, format_of_not_mem h, String.ofList_toList]

end GoFormat
