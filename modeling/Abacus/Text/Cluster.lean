import Abacus.Text.Cluster.Class
/-!
Clusters: the pieces of a text that a reader takes for one character each.

A text is cut by the rules of Unicode for extended grapheme clusters. They ask only for a few facts
about the text before a place, so the cut is made in one pass from left to right.
-/

namespace Abacus

/-- What the text before a place says about whether a cluster ends there. -/
structure ClusterContext where
  last : ClusterClass
  /-- Whether the text ends with a pictograph, any marks on it, and at most one joiner. -/
  pictograph : Bool
  /-- Whether the text ends with a consonant and marks on it, and if so, whether a linker is among them. -/
  linked : Option Bool
  /-- Whether the text ends with an odd number of regional letters. -/
  oddRegionals : Bool

namespace ClusterContext

/-- Before the first character everything is as after a control. -/
def start : ClusterContext :=
  ⟨.control, false, none, false⟩

/-- Whether a character of this class belongs to the cluster before it. -/
def joins (before : ClusterContext) (next : ClusterClass) : Bool :=
  match before.last, next with
  | .carriageReturn, .lineFeed => true
  | .carriageReturn, _ | .lineFeed, _ | .control, _ => false
  | _, .carriageReturn | _, .lineFeed | _, .control => false
  | _, .mark | _, .linker | _, .nonJoiner | _, .joiner | _, .spacingMark => true
  | .prepended, _ => true
  | .leadingJamo, .leadingJamo | .leadingJamo, .vowelJamo => true
  | .leadingJamo, .openSyllable | .leadingJamo, .closedSyllable => true
  | .vowelJamo, .vowelJamo | .vowelJamo, .trailingJamo => true
  | .openSyllable, .vowelJamo | .openSyllable, .trailingJamo => true
  | .trailingJamo, .trailingJamo | .closedSyllable, .trailingJamo => true
  | _, .consonant => before.linked == some true
  | .joiner, .pictograph => before.pictograph
  | .regional, .regional => before.oddRegionals
  | _, _ => false

/-- The context after one more character. -/
def push (before : ClusterContext) (next : ClusterClass) : ClusterContext where
  last := next
  pictograph := match next with
    | .pictograph => true
    | .mark | .linker | .nonJoiner | .joiner => before.pictograph && before.last != .joiner
    | _ => false
  linked := match next with
    | .consonant => some false
    | .linker => before.linked.map fun _ => true
    | .mark | .joiner => before.linked
    | _ => none
  oddRegionals := next == .regional && !before.oddRegionals

end ClusterContext

/-- The rest of the cluster that is open before the text, and the clusters after that. -/
def clustersFrom (before : ClusterContext) : List Char → List Char × List (List Char)
  | [] => ([], [])
  | c :: text =>
      let next := ClusterClass.ofChar c
      let (rest, clusters) := clustersFrom (before.push next) text
      if before.joins next then (c :: rest, clusters) else ([], (c :: rest) :: clusters)

/-- The clusters of a text; before the first character none is open. -/
def clusters (text : List Char) : List (List Char) :=
  (clustersFrom .start text).2

theorem append_flatten_clustersFrom (before : ClusterContext) (text : List Char) :
    (clustersFrom before text).1 ++ (clustersFrom before text).2.flatten = text := by
  induction text generalizing before with
  | nil => rfl
  | cons c text ih =>
    have := ih (before.push (ClusterClass.ofChar c))
    simp only [clustersFrom]
    split <;> simp [this]

theorem not_joins_start (next : ClusterClass) : ClusterContext.start.joins next = false := by
  cases next <;> rfl

/-- Cutting a text into clusters loses nothing. -/
theorem flatten_clusters (text : List Char) : (clusters text).flatten = text := by
  have h := append_flatten_clustersFrom .start text
  have : (clustersFrom .start text).1 = [] := by
    cases text with
    | nil => rfl
    | cons c text => simp [clustersFrom, not_joins_start]
  simpa [clusters, this] using h

end Abacus
