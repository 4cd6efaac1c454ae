/-!
Words: a letter or underscore, then letters, digits and underscores, all of them ASCII.
-/

namespace Abacus

def isWordStart (c : Char) : Bool :=
  c.isAlpha || c == '_'

def isWordPart (c : Char) : Bool :=
  c.isAlphanum || c == '_'

end Abacus
