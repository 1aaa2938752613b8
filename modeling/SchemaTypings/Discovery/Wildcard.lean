/-!
# Wildcards

A wildcard matches whole names: `*` stands for any characters, `?` for any one, `[…]` for one of a
set and `[!…]` for one outside of it. A bracket that nothing closes stands for itself.

The body of a set is cut into chunks at the dashes that make ranges: the character before such a
dash and the one after it are the ends of the range. A dash at the start or the end of the body, and
one right after a range, stands for itself. A range whose ends are in the wrong order is left out
with both of them; only then it is seen whether the body begins with `!`.
-/

namespace SchemaTypings.Wildcard

/-- One piece of a wildcard. -/
inductive Piece
  /-- Any characters. -/
  | any
  /-- Any one character. -/
  | one
  | char (c : Char)
  /-- A character that lies in one of some ranges, or in none of them. -/
  | set (isNegated : Bool) (ranges : List (Char × Char))
  deriving DecidableEq, Repr

/-! ## Sets -/

/-- The chunks of the body of a set. No range ends within the next `skip` characters, and `taken`
are those of the chunk so far, the last one first. -/
def cutChunks (skip : Nat) (taken : List Char) : List Char → List (List Char)
  | [] => [taken.reverse]
  | c :: rest =>
    if skip = 0 && c = '-' then taken.reverse :: cutChunks 2 [] rest
    else cutChunks (skip - 1) (c :: taken) rest

/-- The chunks in which a dash at the end of the body stands for itself. -/
def keepLastDash (chunks : List (List Char)) : List (List Char) :=
  match chunks.reverse with
  | [] :: chunk :: rest => ((chunk ++ ['-']) :: rest).reverse
  | _ => chunks

/-- The chunks without the ranges whose ends are in the wrong order. -/
def dropEmptyRanges : List (List Char) → List (List Char)
  | [] => []
  | left :: rest =>
    match dropEmptyRanges rest with
    | [] => [left]
    | right :: others =>
      match left.getLast?, right with
      | some lo, hi :: after =>
        if hi < lo then (left.dropLast ++ after) :: others else left :: right :: others
      | _, _ => left :: right :: others

/-- The ranges of the characters of a set; nothing stands for the dash of a range. -/
def rangesOf : List (Option Char) → List (Char × Char)
  | some lo :: none :: some hi :: rest => (lo, hi) :: rangesOf rest
  | c :: rest => (c.getD '-', c.getD '-') :: rangesOf rest
  | [] => []

/-- The piece that the body of a set makes. -/
def setOf (body : List Char) : Piece :=
  let skip := if body.head? = some '!' then 2 else 1
  let chunks := dropEmptyRanges (keepLastDash (cutChunks skip [] body))
  match [none].intercalate (chunks.map (·.map some)) with
  | some '!' :: rest => .set true (rangesOf rest)
  | content => .set false (rangesOf content)

/-- The body of a set and what follows it. A bracket right at the start is part of the body. -/
def splitSet? (cs : List Char) : Option (List Char × List Char) :=
  let (bang, cs) := match cs with
    | '!' :: rest => (['!'], rest)
    | _ => ([], cs)
  let (bracket, cs) := match cs with
    | ']' :: rest => ([']'], rest)
    | _ => ([], cs)
  match cs.dropWhile (· != ']') with
  | _ :: rest => some (bang ++ bracket ++ cs.takeWhile (· != ']'), rest)
  | [] => none

/-! ## Matching -/

/-- The pieces of a wildcard; the first argument bounds their number. -/
def piecesTo : Nat → List Char → List Piece
  | 0, _ => []
  | _, [] => []
  | n + 1, '*' :: rest => .any :: piecesTo n rest
  | n + 1, '?' :: rest => .one :: piecesTo n rest
  | n + 1, '[' :: rest =>
    match splitSet? rest with
    | some (body, rest) => setOf body :: piecesTo n rest
    | none => .char '[' :: piecesTo n rest
  | n + 1, c :: rest => .char c :: piecesTo n rest

/-- The pieces of a wildcard. -/
def pieces (pattern : String) : List Piece :=
  piecesTo pattern.length pattern.toList

/-- Whether a character lies in one of some ranges. -/
def inRanges (ranges : List (Char × Char)) (c : Char) : Bool :=
  ranges.any fun (lo, hi) => lo ≤ c && c ≤ hi

/-- Whether a piece that takes one character takes this one. -/
def Piece.accepts : Piece → Char → Bool
  | .any, _ | .one, _ => true
  | .char c, d => c == d
  | .set isNegated ranges, d => inRanges ranges d != isNegated

/-- All ends of a list, the longest first. -/
def ends : List Char → List (List Char)
  | [] => [[]]
  | c :: rest => (c :: rest) :: ends rest

/-- What may be left of a name after one more piece, given what may be left before it, the longest
first. Any characters leave all ends of the longest, which has all others among its ends. -/
def leftAfter (left : List (List Char)) (p : Piece) : List (List Char) :=
  match p, left with
  | .any, [] => []
  | .any, longest :: _ => ends longest
  | p, left => left.filterMap fun
    | c :: rest => if p.accepts c then some rest else none
    | [] => none

/-- Whether pieces match all of some characters. -/
def matchPieces (ps : List Piece) (cs : List Char) : Bool :=
  (ps.foldl leftAfter [cs]).contains []

/-- Whether a wildcard matches a name. -/
def isMatch (pattern name : String) : Bool :=
  matchPieces (pieces pattern) name.toList

/-- Whether a text has a character that is special in wildcards. -/
def isWild (s : String) : Bool :=
  s.toList.any fun c => c = '*' || c = '?' || c = '['

end SchemaTypings.Wildcard
