import Stencil.Proofs.Expr.Filtering
import Stencil.Proofs.Expr.Undefined
import Stencil.Proofs.Template.Interpolation
import Stencil.Proofs.Template.Rendering
import Stencil.Proofs.Text.Entities
import Stencil.Proofs.Value.Sequences

/-! What expressions with the filter `escape` behind them leave in the text. -/
namespace Stencil

open Text

/-- An outcome that is escaped text, unless it is undefined. -/
def Outcome.Escaped : Outcome → Prop
  | .defined v | .rescued v => ∃ s, v = .string (escape s)
  | .undefined _ => True

namespace Env

variable {env : Env} {site : Site} {o o' : Outcome} {cs ds : List FilterCall}

/-- The filter `escape` is the built-in one. -/
def Escapes (env : Env) : Prop := Entries.get? "escape" env.filters = Entries.get? "escape" Filters.builtin

theorem evalFilters_append (o : Outcome) (cs ds : List FilterCall) :
    env.evalFilters site o (cs ++ ds) = (do
      let o' ← env.evalFilters site o cs
      env.evalFilters (site.behind cs.length) o' ds) := by
  induction cs generalizing site o with
  | nil => rfl
  | cons c cs ih =>
    rw [List.cons_append, evalFilters, evalFilters]
    cases Entries.get? c.name env.filters with
    | none => rfl
    | some f =>
      dsimp only
      cases env.evalAll (site.child 0) 0 c.args with
      | error e => rfl
      | ok args =>
        show (filterOutcome f args o).bind _ = ((filterOutcome f args o).bind _).bind _
        cases filterOutcome f args o with
        | error e => rfl
        | ok o' => exact ih o'

/-- Whether a source comes to the string `s`. -/
def givesString (env : Env) (e s : String) : Bool :=
  match Pipeline.parse e with
  | .error _ => false
  | .ok p =>
    match env.evalPipeline ⟨0, []⟩ p with
    | .ok (.defined (.string t)) => t == s
    | _ => false

theorem exists_of_givesString {e s : String} (h : env.givesString e s = true) :
    ∃ p, Pipeline.parse e = .ok p ∧ env.evalPipeline ⟨0, []⟩ p = .ok (.defined (.string s)) := by
  rw [givesString] at h
  split at h
  · cases h
  · next p hp =>
    split at h
    · next t ht =>
      obtain rfl := eq_of_beq h
      exact ⟨p, hp, ht⟩
    · cases h

theorem get?_escape (h : env.Escapes) :
    Entries.get? "escape" env.filters = some ⟨"escape", false, fun v _ => .ok (.string (escape v.display))⟩ := h

/-- What comes out of the filter `escape` is escaped text, unless nothing does. -/
theorem escaped_of_evalFilters (henv : env.Escapes)
    (h : env.evalFilters site o (cs ++ [⟨"escape", []⟩]) = .ok o') : o'.Escaped := by
  induction cs generalizing site o with
  | nil =>
    rw [List.nil_append, evalFilters, get?_escape henv] at h
    cases o with
    | defined v =>
      obtain rfl : Outcome.defined (.string (escape v.display)) = o' := Except.ok.inj h
      exact ⟨_, rfl⟩
    | rescued v =>
      obtain rfl : Outcome.rescued (.string (escape v.display)) = o' := Except.ok.inj h
      exact ⟨_, rfl⟩
    | undefined cause =>
      obtain rfl : Outcome.undefined cause = o' := Except.ok.inj h
      trivial
  | cons c cs ih =>
    rw [List.cons_append, evalFilters] at h
    split at h
    · cases h
    · obtain ⟨args, -, h⟩ := Result.bind_eq_ok h
      obtain ⟨o₁, -, h⟩ := Result.bind_eq_ok h
      exact ih h

theorem evalPipeline_escape (henv : env.Escapes) {p : Pipeline} {s : String}
    (ho : env.evalPipeline site p = .ok o) (hs : o.value = .ok (.string s)) :
    ∃ o', env.evalPipeline site ⟨p.base, p.filters ++ [⟨"escape", []⟩]⟩ = .ok o' ∧
      o'.value = .ok (.string (escape s)) := by
  obtain ⟨o₀, hbase, hfilters⟩ := Result.bind_eq_ok ho
  have hall : env.evalPipeline site ⟨p.base, p.filters ++ [⟨"escape", []⟩]⟩ =
      env.evalFilters ((site.child 1).behind p.filters.length) o [⟨"escape", []⟩] := by
    rw [evalPipeline, hbase]
    show env.evalFilters _ o₀ (p.filters ++ [⟨"escape", []⟩]) = _
    rw [evalFilters_append, hfilters]
    rfl
  rw [hall, evalFilters, get?_escape henv]
  cases o with
  | defined v =>
    obtain rfl := Except.ok.inj hs
    exact ⟨.defined (.string (escape s)), rfl, rfl⟩
  | rescued v =>
    obtain rfl := Except.ok.inj hs
    exact ⟨.rescued (.string (escape s)), rfl, rfl⟩
  | undefined cause => cases hs

end Env

namespace Node

/-- A text begins with a tag whose opening marker has a closing marker that matches it. -/
def Marker.Closed (m : Marker) (cs : List Char) : Prop := ∃ c rest, m.Encloses c ∧ cs = m.enclose c ++ rest

/-- The closing braces of a tag are the last ones, or they lie inside of its source. -/
theorem closing_cases {i rest cs : List Char} (h : i ++ '}' :: '}' :: rest = ' ' :: (cs ++ [' ', '}', '}'])) :
    (i = ' ' :: (cs ++ [' ']) ∧ rest = []) ∨ ∃ a more, i = ' ' :: a ∧ cs = a ++ '}' :: more := by
  cases i with
  | nil => cases (List.cons.inj h).1
  | cons d a =>
    obtain ⟨rfl, hbehind⟩ := List.cons.inj h
    rcases List.append_eq_append_iff.1 hbehind with ⟨x, hcs, hx⟩ | ⟨x, ha, hx⟩
    · cases x with
      | nil => cases (List.cons.inj hx).1
      | cons y more =>
        obtain ⟨rfl, -⟩ := List.cons.inj hx
        exact .inr ⟨a, more, rfl, hcs⟩
    · rcases x with _ | ⟨y, _ | ⟨z, x⟩⟩
      · cases (List.cons.inj hx).1
      · obtain ⟨rfl, hrest⟩ := List.cons.inj hx
        exact .inl ⟨by rw [ha], (List.cons.inj (List.cons.inj hrest).2).2.symm⟩
      · have hlength := congrArg List.length hx
        simp only [List.length_append, List.length_cons, List.length_nil] at hlength
        omega

end Node

namespace Render

variable {rules : Rules} {order : MapOrder} {env : Env}

theorem interpolate_eq_ok {depth : Nat} {source text : String}
    (h : interpolate rules env depth source = .ok text) :
    ∃ p o, Pipeline.parse source = .ok p ∧ env.evalPipeline ⟨depth, []⟩ p = .ok o ∧
      (o.value.map Value.display = .ok text ∨ (∃ cause, o = .undefined cause) ∧ text = "") := by
  obtain ⟨p, hp, h⟩ := Result.bind_eq_ok h
  obtain ⟨o, ho, h⟩ := Result.bind_eq_ok h
  refine ⟨p, o, hp, ho, ?_⟩
  cases o with
  | defined v => exact .inl h
  | rescued v => exact .inl h
  | undefined cause =>
    dsimp only at h
    split at h
    · cases h
    · exact .inr ⟨⟨cause, rfl⟩, (Except.ok.inj h).symm⟩

theorem markupFree_of_outcome {o : Outcome} {text : String} (ho : o.Escaped)
    (htext : o.value.map Value.display = .ok text ∨ (∃ cause, o = .undefined cause) ∧ text = "") :
    MarkupFree text.toList := by
  rcases htext with htext | ⟨-, rfl⟩
  · cases o with
    | defined v | rescued v =>
      obtain ⟨s, rfl⟩ := ho
      obtain rfl : escape s = text := Except.ok.inj htext
      exact markupFree_escape s
    | undefined cause => cases htext
  · exact markupFree_nil

/-- Rendering goes past an expression only if it has a text. -/
theorem interpolate_of_nodes {source text : String} {ns : List Node}
    (h : nodes rules order env 0 (.expression source :: ns) = .ok text) :
    ∃ s, interpolate rules env 0 source = .ok s := by
  rw [nodes_outermost, nodesFrom_expression rfl] at h
  obtain ⟨s, hs, -⟩ := Result.bind_eq_ok h
  cases hs' : interpolate rules env 0 source with
  | ok s => exact ⟨s, rfl⟩
  | error fault =>
    rw [hs'] at hs
    cases hs

/-- The source of a pipeline with the filter `escape` behind it. -/
def escaped (e : String) : String := e ++ " | " ++ "escape"

/-- The template that renders a pipeline with the filter `escape` behind it. -/
def escapedTag (e : String) : String := "\x7b\x7b " ++ e ++ " | escape \x7d\x7d"

theorem toList_escapedTag (e : String) :
    (escapedTag e).toList = '{' :: '{' :: ' ' :: ((escaped e).toList ++ [' ', '}', '}']) := by
  simp [escapedTag, escaped]

theorem escapedTag_eq_enclose (e : String) : (escapedTag e).toList =
    Node.Marker.expression.enclose (' ' :: ((escaped e).toList ++ [' '])) := by
  simp [toList_escapedTag, Node.Marker.enclose, Node.Marker.opening, Node.Marker.closing]

section
variable {e text : String} {p : Pipeline} {ts : List Token} (hp : Pipeline.parse e = .ok p)
  (he : ∃ c ∈ e.toList, isBlank c = false)
include he

theorem solid_escaped : ∃ c ∈ (escaped e).toList, isBlank c = false := by
  obtain ⟨c, hc, hblank⟩ := he
  exact ⟨c, by simp [escaped, hc], hblank⟩

theorem ofTemplate_escapedTag (hc : Node.Interior '{' '}' (' ' :: ((escaped e).toList ++ [' ']))) :
    Node.ofTemplate (escapedTag e) = [.expression (String.ofList (trim (escaped e).toList))] := by
  rw [Node.ofTemplate, escapedTag_eq_enclose, Node.segment_enclose .expression hc, Node.Marker.node,
    trim_spaced (solid_escaped he)]

include hp

theorem parse_escaped : Pipeline.parse (escaped e) = .ok ⟨p.base, p.filters ++ [⟨"escape", []⟩]⟩ :=
  Pipeline.parse_filtered hp he ⟨⟨'e', rfl, rfl⟩, List.all_eq_true.1 rfl⟩ (by decide)

variable (henv : env.Escapes)
include henv

/-- Whatever is rendered is free of markup, if only the tag is one. -/
theorem markupFree_of_nodes (hclosed : Node.Marker.expression.Closed (escapedTag e).toList)
    (htext : nodes rules order env 0 (Node.ofTemplate (escapedTag e)) = .ok text) : MarkupFree text.toList := by
  obtain ⟨c, rest, hc, htag⟩ := hclosed
  have hnodes : Node.ofTemplate (escapedTag e) = .expression (String.ofList (trim c)) :: Node.segment rest := by
    rw [Node.ofTemplate, htag, Node.segment_append .expression hc, Node.Marker.node]
  have hclosing : c ++ '}' :: '}' :: rest = ' ' :: ((escaped e).toList ++ [' ', '}', '}']) := by
    rw [toList_escapedTag] at htag
    simpa [Node.Marker.enclose, Node.Marker.opening, Node.Marker.closing] using htag.symm
  have hparse := parse_escaped hp he
  rcases Node.closing_cases hclosing with ⟨rfl, -⟩ | ⟨a, more, rfl, hsource⟩
  · rw [ofTemplate_escapedTag he hc, nodes_expression] at htext
    cases hs : interpolate rules env 0 (String.ofList (trim (escaped e).toList)) with
    | error fault =>
      rw [hs] at htext
      cases htext
    | ok s =>
      rw [hs] at htext
      obtain rfl := Except.ok.inj htext
      obtain ⟨p', o, hp', ho, hs⟩ := interpolate_eq_ok hs
      obtain rfl := Except.ok.inj ((Pipeline.parse_trim hparse (solid_escaped he)).symm.trans hp')
      obtain ⟨o₀, -, hfilters⟩ := Result.bind_eq_ok ho
      exact markupFree_of_outcome (Env.escaped_of_evalFilters henv hfilters) hs
  · -- The tag ends inside of its source, and what is in front of its end is no source.
    rw [hnodes] at htext
    obtain ⟨s, hs⟩ := interpolate_of_nodes htext
    obtain ⟨p', -, hp', -⟩ := interpolate_eq_ok hs
    rw [trim_cons_blank rfl] at hp'
    rw [← String.ofList_toList (s := escaped e), hsource] at hparse
    exact absurd hp' (Pipeline.parse_trim_before_brace hparse)

/-- Where the double braces of the source match, the text of its value is rendered escaped. -/
theorem nodes_escapedTag (hlex : lex e = .ok ts) (hbraces : bracesMatch 0 ts = true) :
    Node.Marker.expression.Closed (escapedTag e).toList ∧
      ∀ o s, env.evalPipeline ⟨0, []⟩ p = .ok o → o.value = .ok (.string s) →
        nodes rules order env 0 (Node.ofTemplate (escapedTag e)) = .ok (escape s) := by
  have hname : AsciiName "escape".toList := ⟨⟨'e', rfl, rfl⟩, List.all_eq_true.1 rfl⟩
  obtain ⟨q, r, hlexed⟩ := Pipeline.lex_filtered hlex hname (by decide)
  have hinterior : Node.Interior '{' '}' (' ' :: ((escaped e).toList ++ [' '])) := by
    refine (Node.interior_iff_bracesMatch hlexed).2 ?_
    rw [bracesMatch_append (by simp [Lexeme.NoBrace]), hbraces]
  refine ⟨⟨_, [], hinterior, by rw [escapedTag_eq_enclose, List.append_nil]⟩, fun o s ho hs => ?_⟩
  obtain ⟨o', ho', hs'⟩ := Env.evalPipeline_escape henv ho hs
  have hparse := Pipeline.parse_trim (parse_escaped hp he) (solid_escaped he)
  have htext : interpolate rules env 0 (String.ofList (trim (escaped e).toList)) = .ok (escape s) := by
    rw [interpolate, hparse]
    show (env.evalPipeline _ _).bind _ = _
    rw [ho']
    cases o' with
    | defined v | rescued v =>
      obtain rfl := Except.ok.inj hs'
      rfl
    | undefined cause => cases hs'
  rw [ofTemplate_escapedTag he hinterior, nodes_expression, htext]
  rfl

end

/-- Escaped text is free of markup, its entities lead back to the text, and it is escaped piece by piece. What a
template renders of a pipeline with the filter `escape` behind it is free of markup if its tag is closed, and the
escaped string if the double braces of the source match. -/
theorem escape_markupFree :
    (∀ s : String, MarkupFree (escape s).toList ∧ unescape (escape s).toList = s.toList) ∧
      (∀ s t : String, escape s = escape t → s = t) ∧
      (∀ s t : String, escape (s ++ t) = escape s ++ escape t) ∧
      ∀ (rules : Rules) (order : MapOrder) (env : Env) (e : String) (p : Pipeline), env.Escapes →
        Pipeline.parse e = .ok p →
        (∃ c ∈ e.toList, isBlank c = false) →
        (Node.Marker.expression.Closed (escapedTag e).toList → ∀ text,
          nodes rules order env 0 (Node.ofTemplate (escapedTag e)) = .ok text → MarkupFree text.toList) ∧
        ∃ ts, lex e = .ok ts ∧ (bracesMatch 0 ts = true →
          Node.Marker.expression.Closed (escapedTag e).toList ∧
          ∀ o s, env.evalPipeline ⟨0, []⟩ p = .ok o → o.value = .ok (.string s) →
            nodes rules order env 0 (Node.ofTemplate (escapedTag e)) = .ok (escape s)) := by
  refine ⟨fun s => ⟨markupFree_escape s, unescape_escape s⟩, fun _ _ h => escape_injective h, escape_append, ?_⟩
  intro rules order env e p henv hp he
  obtain ⟨ts, hlex, -⟩ := Result.bind_eq_ok hp
  exact ⟨fun hclosed text htext => markupFree_of_nodes hp he henv hclosed htext, ts, hlex,
    fun hbraces => nodes_escapedTag hp he henv hlex hbraces⟩

/-- The double braces of a dict in a dict, markup inside of strings, and a filter in front. -/
theorem escape_markupFree_dict :
    let env : Env := ⟨.bare, .empty, .builtin, .ofEntries (.ofList [("x", .string "&lt;")])⟩
    let order : MapOrder := fun _ => .stored
    let e := "\x7b'a': \x7b'b': ' \"\x7d\x7d\x7b\x7b<'\x7d \x7d['a']['b'] + x | trim"
    nodes ⟨none, true⟩ order env 0 (Node.ofTemplate (escapedTag e)) = .ok "&#34;\x7d\x7d\x7b\x7b&lt;&amp;lt;" ∧
      MarkupFree "&#34;\x7d\x7d\x7b\x7b&lt;&amp;lt;".toList := by
  intro env order e
  obtain ⟨p, hp, hvalue⟩ := Env.exists_of_givesString
    (by decide +kernel : env.givesString e "\"\x7d\x7d\x7b\x7b<&lt;" = true)
  have hmatch : ((lex e).toOption.map (bracesMatch 0)) = some true := by decide +kernel
  obtain ⟨-, -, -, hrender⟩ := escape_markupFree
  obtain ⟨hsafe, ts, hlex, hexact⟩ := hrender ⟨none, true⟩ order env e p rfl hp ⟨'a', by decide, by decide⟩
  rw [hlex] at hmatch
  obtain ⟨hclosed, hnodes⟩ := hexact (Option.some.inj hmatch)
  have htext := hnodes _ _ hvalue rfl
  exact ⟨htext, hsafe hclosed _ htext⟩

/-- Double braces of dicts that stay open leave the tag unclosed, and its source is text with a comment in it. -/
theorem escapedTag_unclosed :
    let env : Env := ⟨.bare, .empty, .builtin, .empty⟩
    let order : MapOrder := fun _ => .stored
    let e := "['<\x7b#', \x7b\x7b1: 2\x7d: 3\x7d, '#\x7d'][0]"
    (∃ p, Pipeline.parse e = .ok p ∧ env.evalPipeline ⟨0, []⟩ p = .ok (.defined (.string "<\x7b#"))) ∧
      nodes ⟨none, false⟩ order env 0 (Node.ofTemplate (escapedTag e)) = .ok "\x7b\x7b ['<'][0] | escape \x7d\x7d" ∧
      ¬ MarkupFree "\x7b\x7b ['<'][0] | escape \x7d\x7d".toList := by
  intro env order e
  obtain ⟨p, hp, hvalue⟩ := Env.exists_of_givesString
    (by decide +kernel : env.givesString e "<\x7b#" = true)
  exact ⟨⟨p, hp, hvalue⟩, by decide +kernel, fun h => h.unmarked '<' (.head _) (by decide)⟩

end Render

end Stencil
