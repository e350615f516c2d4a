import Understudy.Text.Blank

/-! # Tokens of a spelling

A spelling is compared by its tokens: each maximal run of word characters is one token and every
other character that is not blank is a token by itself. `normalise` rewrites a spelling so that a
single space is left exactly where two word tokens would otherwise run together.
-/

namespace Understudy.Text

/-- One pass over the rest of a spelling. `afterWord` tells whether the last character kept was a
word character, `gap` whether blanks were dropped since. -/
def squeeze (afterWord gap : Bool) : List Char → List Char
  | [] => []
  | c :: rest =>
    if isBlank c then squeeze afterWord true rest
    else if afterWord && gap && isWordChar c then ' ' :: c :: squeeze true false rest
    else c :: squeeze (isWordChar c) false rest

def normalise (spelling : List Char) : List Char :=
  squeeze false false spelling

/-- Adds a word character to the front of the tokens that follow it: it joins the first of them
when `joined` says that nothing stood between. -/
def consWordChar (c : Char) (joined : Bool) : List (List Char) → List (List Char)
  | [] => [[c]]
  | token :: tokens => if joined then (c :: token) :: tokens else [c] :: token :: tokens

/-- The tokens of a spelling in order. -/
def tokens : List Char → List (List Char)
  | [] => []
  | c :: rest =>
    if isBlank c then tokens rest
    else if isWordChar c then consWordChar c (rest.head?.any isWordChar) (tokens rest)
    else [c] :: tokens rest

/-- The maximal runs of word characters: the tokens that are words. -/
def words (text : List Char) : List (List Char) :=
  (tokens text).filter fun token => token.all isWordChar

end Understudy.Text
