/-! The sign in front of a numeral. -/

namespace VisitGraph.Text

/-- Takes off a sign and tells whether it was a minus. -/
def takeSign : List Char → Bool × List Char
  | '-' :: rest => (true, rest)
  | '+' :: rest => (false, rest)
  | text => (false, text)

end VisitGraph.Text
