import CommentBlocks.Glob.Basic

/-!
Matching paths with glob patterns, byte by byte.

A part of a pattern takes a text to the rests that may follow what it matches.
-/

namespace CommentBlocks

abbrev PathBytes := List UInt8

namespace Glob

def slash : UInt8 := 47

def charBytes (c : Char) : List UInt8 := (String.ofList [c]).toUTF8.toList

def after? : List UInt8 → PathBytes → Option PathBytes
  | [], bs => some bs
  | _ :: _, [] => none
  | x :: xs, b :: bs => if x = b then after? xs bs else none

/-- The text itself and all that is left of it when bytes are taken off its front. -/
def rests : PathBytes → List PathBytes
  | [] => [[]]
  | b :: bs => (b :: bs) :: rests bs

/-- What is left when bytes other than slashes are taken off the front. -/
def restsInName : PathBytes → List PathBytes
  | [] => [[]]
  | b :: bs => if b = slash then [b :: bs] else (b :: bs) :: restsInName bs

/-- What may follow a slash of the text. -/
def afterSlashes : PathBytes → List PathBytes
  | [] => []
  | b :: bs => if b = slash then bs :: afterSlashes bs else afterSlashes bs

/-- A byte is in the ranges. Characters of several bytes count byte by byte, and a range reaches from
the last byte of its first character to the first byte of its last one. -/
def inRanges (ranges : List (Char × Char)) (b : UInt8) : Bool :=
  ranges.any fun (low, high) =>
    let lows := charBytes low
    let highs := charBytes high
    if low = high then lows.contains b
    else
      lows.dropLast.contains b || highs.tail.contains b ||
        (lows.getLast?.any (· ≤ b) && highs.head?.any (b ≤ ·))

/-- Keep one of the rests of each length. -/
def distinct (rs : List PathBytes) : List PathBytes :=
  (rs.foldl (fun (seen : List Nat × List PathBytes) r =>
    if seen.1.contains r.length then seen else (r.length :: seen.1, r :: seen.2)) ([], [])).2.reverse

mutual

/-- The pattern has no text of its own to match. -/
def isVoid : GlobPart → Bool
  | .alternatives branches => areVoid branches
  | _ => false

def allVoid : List GlobPart → Bool
  | [] => true
  | p :: ps => isVoid p && allVoid ps

def areVoid : List (List GlobPart) → Bool
  | [] => true
  | b :: bs => allVoid b && areVoid bs

end

mutual

def partRests (style : GlobStyle) : GlobPart → PathBytes → List PathBytes
  | .literal c, bs => (after? (charBytes c) bs).toList
  | .any, [] => []
  | .any, b :: bs => if style.slashSeparates && b == slash then [] else [bs]
  | .star, bs => if style.slashSeparates then restsInName bs else rests bs
  | .directoriesFirst, bs => bs :: afterSlashes bs
  | .everythingBelow, bs =>
    match bs with
    | [] => []
    | b :: bs => if b = slash then rests bs else []
  | .directoriesBetween, bs =>
    match bs with
    | [] => []
    | b :: bs => if b = slash then bs :: afterSlashes bs else []
  | .set _ _, [] => []
  | .set negated ranges, b :: bs => if inRanges ranges b != negated then [bs] else []
  | .alternatives branches, bs =>
    if areVoid branches then [bs] else branchRests style branches bs

def partsRests (style : GlobStyle) : List GlobPart → List PathBytes → List PathBytes
  | [], rs => rs
  | p :: ps, rs => partsRests style ps (distinct (rs.flatMap (partRests style p)))

/-- What may follow one of the patterns; those without text do not count. -/
def branchRests (style : GlobStyle) : List (List GlobPart) → PathBytes → List PathBytes
  | [], _ => []
  | b :: bs, text =>
    (if allVoid b then [] else partsRests style b [text]) ++ branchRests style bs text

end

/-- Two stars alone match everything. -/
def isEverything (g : Glob) : Bool :=
  match g.parts with
  | [.directoriesFirst] => true
  | _ => false

def isMatch (g : Glob) (path : PathBytes) : Bool :=
  g.isEverything || (partsRests g.style g.parts [path]).any List.isEmpty

end Glob

end CommentBlocks
