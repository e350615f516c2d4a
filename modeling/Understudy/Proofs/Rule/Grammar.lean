import Understudy.Proofs.Text.Token
import Understudy.Rule.Parse

/-! # The grammar of override rules

A rule text is a key and a value around its first `=`. A key is about a parameter, a return value or
a type. A value is a kind, an argument in parentheses for the kinds that take one, and `/` with a
modifier after it if there is one. The grammar says which texts write which rule and nothing about
how a text is read.
-/

namespace Understudy

/-- Parentheses that pair up: read from the front, none is closed that is not open, and in the end
all are closed. -/
structure Text.Balanced (text : List Char) : Prop where
  closed_le : ∀ before, before <+: text → before.count ')' ≤ before.count '('
  closed_eq : text.count ')' = text.count '('

namespace Selector

/-- A spelling that shows more than a base name. -/
def ShowsDeclarator (spelling : List Char) : Prop :=
  '*' ∈ spelling ∨ '&' ∈ spelling ∨ '[' ∈ spelling ∨
    Text.ShowsWord "const".toList spelling ∨ Text.ShowsWord "volatile".toList spelling

/-- The keys of a selector. Blanks around a name do not belong to it. A key of a parameter rule that
ends in `@` is about a return value, and in any other the function reaches to the first `#`. -/
inductive Written : Level → List Char → Selector → Prop
  | functionResult {function : List Char} (hfunction : Text.HasContent function)
      (hmark : '#' ∉ function) :
      Written .parameter (function ++ ['@'])
        (.functionResult (String.ofList (Text.trim function)))
  | functionParameter {function parameter : List Char} (hfunction : Text.HasContent function)
      (hmark : '#' ∉ function) (hparameter : Text.HasContent parameter)
      (hlast : parameter.getLast? ≠ some '@') :
      Written .parameter (function ++ '#' :: parameter)
        (.functionParameter (String.ofList (Text.trim function))
          (String.ofList (Text.trim parameter)))
  | parameterName {gap parameter : List Char} (hgap : Text.IsGap gap)
      (hparameter : Text.HasContent parameter) (hlast : parameter.getLast? ≠ some '@') :
      Written .parameter (gap ++ '#' :: parameter)
        (.parameterName (String.ofList (Text.trim parameter)))
  | typeSpelling {role : Role} {type : List Char} (htype : Text.HasContent type)
      (hshows : ShowsDeclarator (Text.normalise type)) :
      Written .type (role.sigil.toList ++ type)
        (.typeSpelling role (String.ofList (Text.normalise type)))
  | typeName {role : Role} {type : List Char} (htype : Text.HasContent type)
      (hshows : ¬ ShowsDeclarator (Text.normalise type)) :
      Written .type (role.sigil.toList ++ type)
        (.typeName role (String.ofList (Text.normalise type)))

end Selector

namespace Treatment

/-- The thirteen kinds, each with its word. Two of them take an argument, and a return value takes
only a scalar. -/
inductive Named : Role → List Char → Option (List Char) → Treatment → Prop
  | scalar (role : Role) (s : Scalar) : Named role s.token.toList none (.scalar s)
  | output : Named .parameter "Output".toList none .output
  | skip : Named .parameter "Skip".toList none .skip
  | memoryBuffer (length : List Char) :
      Named .parameter "MemoryBuffer".toList (some length) (.memoryBuffer (String.ofList length))
  | object (tag : List Char) :
      Named .parameter "Object".toList (some tag) (.object (String.ofList tag))

/-- What follows the word of a kind: blanks, or an argument in parentheses with blanks before and
after them. -/
inductive ArgumentWritten : List Char → Option (List Char) → Prop
  | absent {gap : List Char} (hgap : Text.IsGap gap) : ArgumentWritten gap none
  | present {before argument after : List Char} (hbefore : Text.IsGap before)
      (hbalanced : Text.Balanced argument) (hargument : Text.HasContent argument)
      (hafter : Text.IsGap after) :
      ArgumentWritten (before ++ '(' :: (argument ++ ')' :: after)) (some (Text.trim argument))

end Treatment

/-- A modifier is written with exactly one `$`. -/
inductive Modifier.Written : List Char → Modifier → Prop
  | intro {front back : List Char} (hfront : '$' ∉ front) (hback : '$' ∉ back) :
      Written (front ++ '$' :: back)
        { front := String.ofList (Text.trim front), back := String.ofList (Text.trim back) }

namespace Rule

/-- The values of a treatment and a modifier. -/
inductive ValueWritten (role : Role) : List Char → Treatment → Option Modifier → Prop
  | plain {token argument : List Char} {argument? : Option (List Char)} {treatment : Treatment}
      (hnamed : Treatment.Named role token argument? treatment)
      (hargument : Treatment.ArgumentWritten argument argument?) :
      ValueWritten role (token ++ argument) treatment none
  | modified {token argument text : List Char} {argument? : Option (List Char)}
      {treatment : Treatment} {modifier : Modifier}
      (hnamed : Treatment.Named role token argument? treatment)
      (hargument : Treatment.ArgumentWritten argument argument?)
      (hmodifier : Modifier.Written text modifier) :
      ValueWritten role (token ++ (argument ++ '/' :: text)) treatment (some modifier)

/-- The texts of a rule: a key and a value around the first `=`. -/
inductive Written (level : Level) (text : String) (rule : Rule) : Prop
  | intro {key value : List Char} (htext : text.toList = key ++ '=' :: value)
      (hkey : '=' ∉ key) (hselector : Selector.Written level (Text.trim key) rule.selector)
      (hvalue : ValueWritten rule.selector.role (Text.trim value) rule.treatment rule.modifier?)

end Rule

end Understudy
