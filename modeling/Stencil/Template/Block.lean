import Stencil.Template.Node

/-! Where blocks end: the extent of loops and of the branches of conditionals in a sequence of nodes. -/
namespace Stencil

/-- A branch of a conditional: the indices of its tag and of the tag that ends it. -/
structure Branch where
  tag : Nat
  stop : Nat
  deriving DecidableEq, Repr

/-- The branches of a conditional, and the index of the tag that closes it. -/
structure Chain where
  branches : List Branch
  stop : Nat
  deriving DecidableEq, Repr

namespace Block

def kindAt? (nodes : List Node) (i : Nat) : Option TagKind := nodes[i]?.bind Node.kind?

/-- The change of the nesting depth of a family at a tag. -/
def step (family : Family) (kind : TagKind) : Int :=
  if kind.opens? = some family then 1 else if kind.closes? = some family then -1 else 0

def otherFamily : Family → Family
  | .branching => .looping
  | .looping => .branching

/-- Finds the end of a segment of a block in the nodes from index `i` on. `own` is the depth of the
family of the block, `other` that of the other family. A tag changes each depth by one at most, so that in
a template of fewer than `2 ^ 31` tags no depth leaves the range of 32 bits. -/
def scan (family : Family) (stoppers : List TagKind) (i : Nat) (own other : Int) :
    List Node → Option Nat
  | [] => none
  | node :: nodes =>
    match node.kind? with
    | none => scan family stoppers (i + 1) own other nodes
    | some kind =>
      if own = 1 ∧ other = 0 ∧ (kind = .unknown ∨ kind ∈ stoppers) then some i
      else
        let own' := own + step family kind
        if kind.closes? = some family ∧ own' = 0 then some i
        else scan family stoppers (i + 1) own' (other + step (otherFamily family) kind) nodes

/-- The index of the tag that ends the segment of the block opened at `start`: a stopper or an unknown
tag of the block itself, or else its closer. -/
def find (nodes : List Node) (start : Nat) (closer : TagKind) (stoppers : List TagKind) :
    Result Nat :=
  match closer.closes? with
  | none => .error (.malformedTag (.noCloser closer.keyword))
  | some family =>
    match scan family stoppers (start + 1) 1 0 (nodes.drop (start + 1)) with
    | some stop => .ok stop
    | none => .error (.unclosedBlock family start)

/-- The failure of a block that meets the node at an index where its own tag is due. -/
def misplaced (nodes : List Node) (i : Nat) (block : Family) : Error :=
  .malformedTag (match nodes[i]?.bind Node.tag? with
    | none => .noTagInBlock i block
    | some t =>
      match t.directive with
      | .unknown diagnostic => .unknownInBlock t.source block diagnostic
      | _ => .unexpectedInBlock t.source block)

/-- The index of the tag that closes the loop opened at `start`. -/
def loopEnd (nodes : List Node) (start : Nat) : Result Nat := do
  let stop ← find nodes start .endFor []
  if kindAt? nodes stop = some .endFor then .ok stop
  else .error (misplaced nodes stop .looping)

theorem scan_bounds {family : Family} {stoppers : List TagKind} {i : Nat} {own other : Int}
    {nodes : List Node} {stop : Nat} (h : scan family stoppers i own other nodes = some stop) :
    i ≤ stop ∧ stop < i + nodes.length := by
  induction nodes generalizing i own other with
  | nil => simp [scan] at h
  | cons node nodes ih =>
    have found {j : Nat} (hj : some j = some stop) (hi : j = i) :
        i ≤ stop ∧ stop < i + (node :: nodes).length := by
      obtain rfl := Option.some.inj hj
      simp [hi]
    have later {own' other' : Int} (hs : scan family stoppers (i + 1) own' other' nodes = some stop) :
        i ≤ stop ∧ stop < i + (node :: nodes).length := by
      have := ih hs
      simp only [List.length_cons]
      omega
    simp only [scan] at h
    split at h
    · exact later h
    · split at h
      · exact found h rfl
      · split at h
        · exact found h rfl
        · exact later h

theorem find_bounds {nodes : List Node} {start : Nat} {closer : TagKind} {stoppers : List TagKind}
    {stop : Nat} (h : find nodes start closer stoppers = .ok stop) :
    start < stop ∧ stop < nodes.length := by
  unfold find at h
  split at h
  · simp at h
  · split at h
    · next hs =>
      obtain rfl := Except.ok.inj h
      have := scan_bounds hs
      simp only [List.length_drop] at this
      omega
    · simp at h

/-- After an `else` only the closer ends a branch. -/
def branchStoppers (nodes : List Node) (i : Nat) : List TagKind :=
  if kindAt? nodes i = some .elseTag then [] else [.elifTag, .elseTag]

/-- Names the opener of the whole conditional as the one that is not closed. -/
def blame (start : Nat) : Error → Error
  | .unclosedBlock block _ => .unclosedBlock block start
  | e => e

/-- The branches of the conditional opened at `start`, from the branch at `i` on. -/
def chainFrom (nodes : List Node) (start i : Nat) : Result Chain :=
  match _h : find nodes i .endIf (branchStoppers nodes i) with
  | .error e => .error (blame start e)
  | .ok stop =>
    if kindAt? nodes stop = some .endIf then .ok ⟨[⟨i, stop⟩], stop⟩
    else if kindAt? nodes stop = some .elifTag ∨ kindAt? nodes stop = some .elseTag then
      (chainFrom nodes start stop).map fun c => ⟨⟨i, stop⟩ :: c.branches, c.stop⟩
    else .error (misplaced nodes stop .branching)
termination_by nodes.length - i
decreasing_by
  have := find_bounds _h
  omega

/-- The branches of the conditional opened at `start`. -/
def chain (nodes : List Node) (start : Nat) : Result Chain := chainFrom nodes start start

/-- The branches begin at the opener or later, and the closer comes after it. -/
theorem chainFrom_bounds {nodes : List Node} {start i : Nat} {c : Chain}
    (h : chainFrom nodes start i = .ok c) : (∀ b ∈ c.branches, i ≤ b.tag) ∧ i < c.stop := by
  fun_induction chainFrom nodes start i generalizing c with
  | case1 => simp at h
  | case2 i stop hf =>
    obtain rfl := Except.ok.inj h
    simpa using (find_bounds hf).1
  | case3 i stop hf _ _ ih =>
    obtain ⟨c', hc, rfl⟩ := Result.map_eq_ok h
    have hb := ih hc
    have hs := (find_bounds hf).1
    refine ⟨fun b hmem => ?_, Nat.lt_trans hs hb.2⟩
    rcases List.mem_cons.1 hmem with rfl | hmem
    · exact Nat.le_refl _
    · exact Nat.le_trans (Nat.le_of_lt hs) (hb.1 b hmem)
  | case4 => simp at h

theorem loopEnd_bounds {nodes : List Node} {start stop : Nat} (h : loopEnd nodes start = .ok stop) :
    start < stop ∧ stop < nodes.length := by
  cases hf : find nodes start .endFor [] with
  | error e => simp [loopEnd, hf, bind, Except.bind] at h
  | ok stop' =>
    simp only [loopEnd, hf, bind, Except.bind] at h
    split at h
    · obtain rfl := Except.ok.inj h
      exact find_bounds hf
    · simp at h

/-- The nodes between two tags. -/
def body (nodes : List Node) (start stop : Nat) : List Node :=
  (nodes.take stop).drop (start + 1)

theorem length_body_lt {nodes : List Node} {i start : Nat} (stop : Nat) (hi : i < nodes.length)
    (h : i ≤ start) : (body nodes start stop).length < nodes.length - i := by
  simp only [body, List.length_drop, List.length_take]
  omega

end Block

end Stencil
