/-
  Wildcard patterns: `%` stands for any run of characters and `_` for any one character. ASCII
  letters match in either case, all other characters only themselves, but U+FFFE and U+FFFF, which
  are no characters, count as U+FFFD. Pattern and text both end at the first NUL.
-/

namespace FirewallLists.Text.Like

/-- The character that others which count as the same are replaced by. -/
def fold (c : Char) : Char :=
  if c = '\uFFFE' ∨ c = '\uFFFF' then '\uFFFD' else c.toLower

/-- For every suffix of the text, longest first, whether the pattern matches it. -/
def suffixes : List Char → List Char → List Bool
  | [], text => text.map (fun _ => false) ++ [true]
  | p :: ps, text => step p text (suffixes ps text)
where
  /-- One pattern character in front of a pattern whose matches are known. -/
  step (p : Char) : List Char → List Bool → List Bool
    | [], rest => if p = '%' then rest else [false]
    | c :: cs, rest =>
      let later := step p cs (rest.drop 1)
      let here :=
        if p = '%' then rest.headD false || later.headD false
        else (p == '_' || fold p == fold c) && (rest.drop 1).headD false
      here :: later

/-- The characters before the first NUL. -/
def untilNul (s : String) : List Char :=
  s.toList.takeWhile (· != '\x00')

/-- The pattern matches the whole text. -/
def isMatch (pattern text : String) : Bool :=
  (suffixes (untilNul pattern) (untilNul text)).headD false

/-- The pattern that looks for a keyword anywhere in a text. -/
def containing (keyword : String) : String :=
  "%" ++ keyword ++ "%"

/-- The longest pattern, in octets, that can be evaluated. -/
def maxPatternSize : Nat := 50000

/-- The pattern is short enough to be evaluated. -/
def evaluable (pattern : String) : Bool :=
  pattern.utf8ByteSize ≤ maxPatternSize

end FirewallLists.Text.Like
