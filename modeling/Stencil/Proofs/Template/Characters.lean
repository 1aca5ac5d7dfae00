import Stencil.Proofs.Expr.Reading
import Stencil.Proofs.Template.Appending
import Stencil.Proofs.Value.Sequences

/-! Nothing tells a string from the list of its characters: neither keys nor the filters for sequences nor
loops. -/
namespace Stencil

/-- The tag opens a loop that binds the name `x` to one element after the other of the collection `e`. -/
def Tag.LoopsOver (t : Tag) (x e : String) : Prop :=
  ∃ clause, t.directive = .forTag clause ∧ LoopClause.parse clause = .ok ⟨.single x, e⟩

namespace Render

open Block Value

variable {rules : Rules} {order : MapOrder} {env : Env} {depth : Nat} {pre pre' ns rest : List Node}
  {t t' : Tag}

/-- What is rendered from an index on depends on the nodes in front of it only by their number. -/
theorem nodesFrom_behind (hlength : pre.length = pre'.length) {i : Nat} (hi : i ≤ ns.length) :
    nodesFrom rules order env depth (pre ++ ns) (pre.length + i) =
      nodesFrom rules order env depth (pre' ++ ns) (pre'.length + i) := by
  have hplace : order.behind pre.length = order.behind pre'.length := by rw [hlength]
  rcases ends_or_stops rules (order.behind pre.length) env depth hi with
    ⟨s, hreaches⟩ | ⟨j, s, e, hreaches, hstops⟩
  · have hend (before : List Node) :
        nodesFrom rules order env depth (before ++ ns) (before.length + ns.length) = .ok "" :=
      nodesFrom_end (Nat.le_of_eq List.length_append)
    have hreaches' : Reaches rules (order.behind pre'.length) env depth ns i ns.length s := hplace ▸ hreaches
    rw [(hreaches.behind pre).nodesFrom, (hreaches'.behind pre').nodesFrom, hend, hend]
  · have hreaches' : Reaches rules (order.behind pre'.length) env depth ns i j s := hplace ▸ hreaches
    have hsame : nodesFrom rules order env depth (pre ++ ns) (pre.length + j) =
        nodesFrom rules order env depth (pre' ++ ns) (pre'.length + j) := by
      rcases hstops with ⟨k, hgives⟩ | hfails
      · have hgives' : Gives rules (order.behind pre'.length) env depth ns j (.error e) k := hplace ▸ hgives
        rw [(hgives.behind pre).nodesFrom, (hgives'.behind pre').nodesFrom]
        rfl
      · -- only the failure of a block that is not closed names an index
        by_cases hu : ∃ t block, Unclosed ns t block j
        · obtain ⟨t, block, hu⟩ := hu
          rw [(Fails.unclosed (hu.behind pre)).nodesFrom, (Fails.unclosed (hu.behind pre')).nodesFrom,
            hlength]
        · have hnot : ∀ t block, ¬ Unclosed ns t block j := fun t block h => hu ⟨t, block, h⟩
          rw [(hfails.behind pre hnot).nodesFrom, (hfails.behind pre' hnot).nodesFrom]
    rw [(hreaches.behind pre).nodesFrom, (hreaches'.behind pre').nodesFrom, hsame]

/-- Nor does it depend on the node right in front. -/
theorem nodesFrom_past (n n' : Node) {k : Nat} (hk : k ≤ rest.length) :
    nodesFrom rules order env depth (pre ++ n :: rest) (pre.length + 1 + k) =
      nodesFrom rules order env depth (pre ++ n' :: rest) (pre.length + 1 + k) := by
  have hlength (m : Node) : (pre ++ [m]).length = pre.length + 1 := List.length_append
  have hbehind : nodesFrom rules order env depth ((pre ++ [n]) ++ rest) ((pre ++ [n]).length + k) =
      nodesFrom rules order env depth ((pre ++ [n']) ++ rest) ((pre ++ [n']).length + k) :=
    nodesFrom_behind ((hlength n).trans (hlength n').symm) hk
  rwa [hlength, hlength, List.append_assoc, List.append_assoc] at hbehind

/-- Where a loop ends does not depend on what its own tag says. -/
theorem loopEnd_head (n n' : Node) (ns : List Node) : loopEnd (n :: ns) 0 = loopEnd (n' :: ns) 0 := by
  have hfind : find (n :: ns) 0 .endFor [] = find (n' :: ns) 0 .endFor [] := rfl
  rw [loopEnd_eq, loopEnd_eq, hfind]
  cases hf : find (n' :: ns) 0 .endFor [] with
  | error e => rfl
  | ok stop =>
    obtain ⟨k, rfl⟩ := Nat.exists_eq_succ_of_ne_zero (Nat.ne_of_gt (find_bounds hf).1)
    rfl

theorem loopEnd_at (n n' : Node) (pre rest : List Node) :
    loopEnd (pre ++ n :: rest) pre.length = loopEnd (pre ++ n' :: rest) pre.length := by
  have hbehind (m : Node) : loopEnd (pre ++ m :: rest) pre.length =
      (loopEnd (m :: rest) 0).behind pre.length (pre.length + ·) := by
    rw [← loopEnd_behind pre, Nat.add_zero]
  rw [hbehind, hbehind, loopEnd_head n n']

theorem body_at (n n' : Node) (pre rest : List Node) (k : Nat) :
    body (pre ++ n :: rest) pre.length (pre.length + k) =
      body (pre ++ n' :: rest) pre.length (pre.length + k) := by
  have hhead : body (n :: rest) 0 k = body (n' :: rest) 0 k := by cases k <;> rfl
  exact (body_behind pre _ 0 k).trans (hhead.trans (body_behind pre _ 0 k).symm)

/-- The two tags open loops that render alike in front of any nodes and behind any nodes, as long as these go
through maps in the same orders, except that one that is not closed fails in its own tag. -/
def LoopsAlike (rules : Rules) (env : Env) (depth : Nat) (t t' : Tag) : Prop :=
  ∀ order order' : MapOrder, (∀ place, order place = order' place) → ∀ pre rest : List Node,
    (∀ stop, loopEnd (pre ++ .tag t :: rest) pre.length = .ok stop →
      nodesFrom rules order env depth (pre ++ .tag t :: rest) pre.length =
        nodesFrom rules order' env depth (pre ++ .tag t' :: rest) pre.length) ∧
    ∀ e, loopEnd (pre ++ .tag t :: rest) pre.length = .error e →
      nodesFrom rules order env depth (pre ++ .tag t :: rest) pre.length = .error (.inTag t.source e) ∧
      nodesFrom rules order' env depth (pre ++ .tag t' :: rest) pre.length = .error (.inTag t'.source e)

theorem loopsAlike_of_rounds {c c' : String} {rounds : List (List (String × Value))}
    (ht : t.directive = .forTag c) (ht' : t'.directive = .forTag c')
    (hrounds : ∀ a, iterations a env depth c = .ok rounds)
    (hrounds' : ∀ a, iterations a env depth c' = .ok rounds) : LoopsAlike rules env depth t t' := by
  intro order order' hshared pre rest
  obtain rfl : order = order' := funext hshared
  have hget (t : Tag) : (pre ++ .tag t :: rest)[pre.length]? = some (.tag t) := by simp
  have hend := loopEnd_at (.tag t') (.tag t) pre rest
  constructor
  · intro stop hstop
    obtain ⟨k, rfl⟩ := Nat.exists_eq_add_of_le (Nat.succ_le_of_lt (loopEnd_bounds hstop).1)
    have hk : k + 1 ≤ rest.length := by
      have hlt := (loopEnd_bounds hstop).2
      rw [List.length_append, List.length_cons] at hlt
      omega
    have hbody := body_at (.tag t') (.tag t) pre rest (1 + k)
    rw [← Nat.add_assoc] at hbody
    have hrest : nodesFrom rules order env depth (pre ++ .tag t' :: rest) (pre.length + 1 + k + 1) =
        nodesFrom rules order env depth (pre ++ .tag t :: rest) (pre.length + 1 + k + 1) :=
      nodesFrom_past (.tag t') (.tag t) hk
    rw [nodesFrom_for (hget t) ht, nodesFrom_for (hget t') ht', hend, hstop, hrounds, hrounds']
    dsimp only
    rw [hbody, hrest]
    rfl
  · intro e he
    rw [nodesFrom_for (hget t) ht, nodesFrom_for (hget t') ht', hend, he]
    exact ⟨rfl, rfl⟩

theorem iterations_single {c x e : String} {v : Value} {es : List Value} (h : HasElements v es)
    (hc : LoopClause.parse c = .ok ⟨.single x, e⟩) (hv : clauseValue env depth e = .ok v)
    (a : Arrangement) : iterations a env depth c = .ok (es.map fun w => [(x, w)]) := by
  rw [iterations, hc]
  show (clauseValue env depth e >>= bindings a (.single x)) = _
  rw [hv]
  cases h with
  | list items => rfl
  | string s =>
    rw [characters, List.map_map]
    rfl

/-- Loops over two values with the same elements. -/
theorem loopsAlike_of_elements {x e e' : String} {v v' : Value} {es : List Value} (ht : t.LoopsOver x e)
    (ht' : t'.LoopsOver x e') (h : HasElements v es) (h' : HasElements v' es)
    (hv : clauseValue env depth e = .ok v) (hv' : clauseValue env depth e' = .ok v') :
    LoopsAlike rules env depth t t' := by
  obtain ⟨c, ht, hc⟩ := ht
  obtain ⟨c', ht', hc'⟩ := ht'
  exact loopsAlike_of_rounds ht ht' (iterations_single h hc hv) (iterations_single h' hc' hv')

theorem clauseValue_of_parse {e : String} {base : Expr} {v : Value} (hp : Pipeline.parse e = .ok ⟨base, []⟩)
    (h : env.eval (Site.child ⟨depth, []⟩ 0) base = .ok v) : clauseValue env depth e = .ok v := by
  rw [clauseValue, hp]
  show (env.evalPipeline ⟨depth, []⟩ ⟨base, []⟩ >>= Outcome.value) = .ok v
  rw [Env.evalPipeline_defined h, Env.evalFilters]
  rfl

theorem clauseValue_list {e : String} {base : Expr} {v : Value} (hkeeps : env.KeepsSequences)
    (hp : Pipeline.parse e = .ok ⟨base, [⟨"list", []⟩]⟩)
    (h : env.eval (Site.child ⟨depth, []⟩ 0) base = .ok v) :
    clauseValue env depth e = .ok (.list (Filter.toItems v)) := by
  rw [clauseValue, hp]
  show (env.evalPipeline ⟨depth, []⟩ ⟨base, [⟨"list", []⟩]⟩ >>= Outcome.value) = _
  rw [Env.evalPipeline_list hkeeps h, Env.evalFilters]
  rfl

/-- Keys, filters and loops do not tell the string from the list of its characters, be it at hand, the value of
an expression or the value of a whole pipeline. -/
structure Characterwise (env : Env) (s : String) : Prop where
  list : Filters.apply .builtin "list" (.string s) [] = .ok (.list (characters s))
  subscript : ∀ key, env.subscript (.string s) key = env.subscript (.list (characters s)) key
  filter : ∀ name ∈ ["length", "first", "last"],
    Filters.apply .builtin name (.string s) [] = Filters.apply .builtin name (.list (characters s)) []
  piped : env.KeepsSequences → ∀ (site : Site) (base : Expr),
    env.eval (site.child 0) base = .ok (.string s) → ∀ name ∈ ["length", "first", "last"],
    env.evalPipeline site ⟨base, [⟨name, []⟩]⟩ =
      env.evalPipeline site ⟨base, [⟨"list", []⟩, ⟨name, []⟩]⟩
  loop : ∀ (rules : Rules) (depth : Nat) (t t' : Tag) (x e e' : String), t.LoopsOver x e →
    t'.LoopsOver x e' → clauseValue env depth e = .ok (.string s) →
    clauseValue env depth e' = .ok (.list (characters s)) → LoopsAlike rules env depth t t'
  loop_piped : env.KeepsSequences → ∀ (rules : Rules) (depth : Nat) (t t' : Tag) (x e e' : String)
    (base : Expr), t.LoopsOver x e → t'.LoopsOver x e' → Pipeline.parse e = .ok ⟨base, []⟩ →
    Pipeline.parse e' = .ok ⟨base, [⟨"list", []⟩]⟩ →
    env.eval (Site.child ⟨depth, []⟩ 0) base = .ok (.string s) →
    LoopsAlike rules env depth t t'

/-- Strings are the lists of their characters, and keys select from both as from any list. -/
theorem characterwise (env : Env) : (∀ s : String, Characterwise env s) ∧
    ∀ (v : Value) (es : List Value), HasElements v es → env.Indexed v es := by
  refine ⟨fun s => ?_, fun v es h => Env.indexed h⟩
  have hs := HasElements.string s
  have hl := HasElements.list (characters s)
  constructor
  · exact (Env.builtin_sequence (.string s)).1
  · exact Env.subscript_characters s
  · intro name hname
    exact Env.apply_characters s hname
  · intro hkeeps site base hbase name hname
    exact Env.evalPipeline_characters hkeeps hbase hname
  · intro rules depth t t' x e e' ht ht' hv hv'
    exact loopsAlike_of_elements ht ht' hs hl hv hv'
  · intro hkeeps rules depth t t' x e e' base ht ht' hp hp' hbase
    have hv := clauseValue_of_parse hp hbase
    have hv' := clauseValue_list hkeeps hp' hbase
    exact loopsAlike_of_elements ht ht' hs hl hv hv'

/-- A string with a character of two bytes. -/
theorem characterwise_accent :
    let env : Env := ⟨.bare, .builtin, .builtin, .ofEntries (.ofList [("s", .string "aé")])⟩
    let order : MapOrder := fun _ => .stored
    let body : List Node := [.expression "c", .text "-", .tag (Tag.parse "endfor")]
    env.subscript (.string "aé") (.string " 1 ") = env.subscript (.list (characters "aé")) (.string " 1 ") ∧
    (∃ e, [Value.string "a", .string "é"][1]? = some e ∧ env.subscript (.string "aé") (.int (-1)) = .ok e) ∧
    env.subscript (.string "aé") (.int Int64.minValue) =
      .error (.index (.outOfRange (-9223372036854775808) 2)) ∧
    nodesFrom ⟨none, true⟩ order env 0 (.tag (Tag.parse "for c in s") :: body) 0 =
      nodesFrom ⟨none, true⟩ order env 0 (.tag (Tag.parse "for c in s | list") :: body) 0 := by
  intro env order body
  obtain ⟨hstrings, hindexed⟩ := characterwise env
  have haccent := hstrings "aé"
  have hindex := hindexed _ _ (.string "aé")
  refine ⟨haccent.subscript _, ?_, ?_, ?_⟩
  · exact hindex.back (.int (-1)) (-1) rfl (by decide) (by decide)
  · exact hindex.outside (.int Int64.minValue) Int64.minValue rfl (.inl (by decide))
  · have ht : (Tag.parse "for c in s").LoopsOver "c" "s" :=
      ⟨"c in s", by decide +kernel, by decide +kernel⟩
    have ht' : (Tag.parse "for c in s | list").LoopsOver "c" "s | list" :=
      ⟨"c in s | list", by decide +kernel, by decide +kernel⟩
    have hlex : lex "s" = .ok [⟨.name "s", 0⟩] := by decide +kernel
    have hlex' : lex "s | list" = .ok [⟨.name "s", 0⟩, ⟨.mark .pipe, 2⟩, ⟨.name "list", 4⟩] := by
      decide +kernel
    have hkeeps : env.KeepsSequences := fun _ _ => rfl
    have hp : Pipeline.parse "s" = .ok ⟨.name "s", []⟩ := by
      rw [Pipeline.parse, hlex]
      exact Pipeline.ofTokens_of_trailers (Parser.trailers_stop Parser.headAll_nil) Parser.headAll_nil
        Parser.filterCalls_nil
    have hp' : Pipeline.parse "s | list" = .ok ⟨.name "s", [⟨"list", []⟩]⟩ := by
      have hpipe : Parser.NoTrailer (.mark .pipe) := ⟨by decide, by decide, by decide⟩
      have hbelow : Parser.Below 0 (.mark .pipe) := fun op hop => by cases hop
      rw [Pipeline.parse, hlex']
      exact Pipeline.ofTokens_of_trailers (Parser.trailers_stop (Parser.headAll_cons.2 hpipe))
        (Parser.headAll_cons.2 hbelow)
        (Parser.filterCalls_cons (Parser.filterCall_bare rfl) Parser.filterCalls_nil)
    have hloops := haccent.loop_piped hkeeps ⟨none, true⟩ 0 _ _ "c" _ _ _ ht ht' hp hp' rfl
    exact (hloops order order (fun _ => rfl) [] body).1 3 (by rfl)

end Render

end Stencil
