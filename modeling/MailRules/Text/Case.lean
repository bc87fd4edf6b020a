import MailRules.Text.CaseTable

/-! Upper and lower case of text in every script.

A character may map to several. The capital sigma alone depends on its place: it becomes the
final form when the word ends with it. -/
namespace MailRules.Text

/-- The shift that a run gives to a code point it holds. -/
def CaseRun.shift? : CaseRun → Nat → Option Int
  | (first, last, step, shift), n =>
    if first ≤ n ∧ n ≤ last ∧ (n - first) % step = 0 then some shift else none

/-- The characters that a case table gives for one character. -/
def mapCase (runs : List CaseRun) (expansions : List (Nat × List Nat)) (c : Char) : List Char :=
  match runs.findSome? (CaseRun.shift? · c.toNat) with
  | some shift => [Char.ofNat (c.toNat + shift).toNat]
  | none =>
    match expansions.lookup c.toNat with
    | some codes => codes.map Char.ofNat
    | none => [c]

def upperChar (c : Char) : List Char :=
  mapCase upperRuns upperExpansions c

def lowerChar (c : Char) : List Char :=
  mapCase lowerRuns lowerExpansions c

def isCaseIgnorable (c : Char) : Bool :=
  covered caseIgnorableRanges c

def isCased (c : Char) : Bool :=
  covered casedRanges c

/-- The word goes on: the next character that counts has a case. -/
def wordGoesOn (rest : List Char) : Bool :=
  ((rest.dropWhile isCaseIgnorable).head?.map isCased).getD false

/-- Lower case of what follows; `inWord` tells whether the last character that counts had a case. -/
def lowerFrom (inWord : Bool) : List Char → List Char
  | [] => []
  | c :: rest =>
    let here :=
      if c = 'Σ' then [if inWord && !wordGoesOn rest then 'ς' else 'σ'] else lowerChar c
    here ++ lowerFrom (if isCaseIgnorable c then inWord else isCased c) rest

def lowerChars (s : List Char) : List Char :=
  lowerFrom false s

def upperChars (s : List Char) : List Char :=
  s.flatMap upperChar

def lower (s : String) : String :=
  String.ofList (lowerChars s.toList)

def upper (s : String) : String :=
  String.ofList (upperChars s.toList)

end MailRules.Text
