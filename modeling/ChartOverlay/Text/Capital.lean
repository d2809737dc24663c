import ChartOverlay.Text.Basic

/-!
# Capital letters

A text in capitals, as far as these are letters of ASCII. Besides the small letters of ASCII there are a
few others, and ligatures, that are written in capitals with one or more of its letters; whatever has
other capitals is left as it is.
-/

namespace ChartOverlay

/-- The letters beyond ASCII whose capitals are in it. -/
def asciiCapitals : List (Char × Text) :=
  [('ß', "SS"), ('ı', "I"), ('ſ', "S"), ('ﬀ', "FF"), ('ﬁ', "FI"), ('ﬂ', "FL"), ('ﬃ', "FFI"), ('ﬄ', "FFL"),
   ('ﬅ', "ST"), ('ﬆ', "ST")]

def CodePoint.capitals : CodePoint → Text
  | .char c => (asciiCapitals.lookup c).getD [.char c.toUpper]
  | .half offset => [.half offset]

def Text.inCapitals (t : Text) : Text := t.flatMap (·.capitals)

end ChartOverlay
