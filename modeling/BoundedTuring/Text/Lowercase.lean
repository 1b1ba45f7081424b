import BoundedTuring.Text.CaseTable
/-!
# Lower case

The lower case of a text, character by character but for one rule that looks at the neighbours: a capital
sigma that ends a word becomes the final sigma.  A sigma ends a word when a cased character comes before it and
none after it, looking through the case-ignorable characters on both sides.

`lowercase` walks the text once and carries what it has already read, so that both sides of a sigma are at hand.
-/
namespace BoundedTuring
namespace Text

def inRanges (ranges : List (Nat × Nat)) (c : Char) : Bool :=
  ranges.any (fun r => r.1 ≤ c.toNat && c.toNat ≤ r.2)

/-- Characters that are looked through when the neighbours of a sigma are examined. -/
def isCaseIgnorable (c : Char) : Bool := inRanges caseIgnorableRanges c

/-- Characters that have a case and are not looked through. -/
def isCased (c : Char) : Bool := inRanges casedRanges c

/-- Whether the first character that is not looked through is cased. -/
def meetsCased (cs : List Char) : Bool :=
  match cs.dropWhile isCaseIgnorable with
  | [] => false
  | c :: _ => isCased c

/-- The image of a character in a span, if the span holds it. -/
def CaseSpan.image? (s : CaseSpan) (n : Nat) : Option Nat :=
  if s.first ≤ n && n ≤ s.last && (n - s.first) % s.stride == 0 then some (s.image + (n - s.first)) else none

/-- The lower case of one character, its neighbours apart.  A capital I with a dot keeps the dot as a
combining character; every other lower case is one character. -/
def lowercaseChar (c : Char) : List Char :=
  if c.toNat < 0x80 then [c.toLower]
  else if c.toNat = 0x130 then ['i', Char.ofNat 0x307]
  else match lowercaseSpans.findSome? (·.image? c.toNat) with
    | some n => [Char.ofNat n]
    | none => [c]

def capitalSigma : Char := 'Σ'
def finalSigma : Char := 'ς'

/-- The lower case of a text: `before` holds the characters already read and `done` their lower case, both
last first. -/
def lowercaseFrom (before done : List Char) : List Char → List Char
  | [] => done.reverse
  | c :: rest =>
    if c = capitalSigma ∧ meetsCased before = true ∧ meetsCased rest = false then
      lowercaseFrom (c :: before) (finalSigma :: done) rest
    else lowercaseFrom (c :: before) ((lowercaseChar c).reverseAux done) rest

def lowercase (text : String) : List Char := lowercaseFrom [] [] text.toList

/-! ## Occurrence -/

/-- Whether `needle` is a run of consecutive characters of the text. -/
def occursIn (needle : List Char) : List Char → Bool
  | [] => needle.isEmpty
  | c :: rest => needle.isPrefixOf (c :: rest) || occursIn needle rest

theorem occursIn_iff (needle text : List Char) : occursIn needle text = true ↔ needle <:+: text := by
  induction text with
  | nil => simp [occursIn]
  | cons c rest ih => simp [occursIn, ih, List.infix_cons_iff]

end Text
end BoundedTuring
