import AttrChain.Kit.Host
import AttrChain.Proofs.Descent
import AttrChain.Proofs.Links

/-!
What a query for all matches finds: the nodes below its start that match, in tree order, and of
these the ones that its refinement keeps. The stack is left alone but for one value set aside.
-/

namespace AttrChain

variable {ε α : Type}

namespace Refinement

/-- What a refinement keeps of items, by their places. -/
def kept (read : α → Option String → Option Value) (items : List α) : Refinement → List α
  | range first last =>
    (items.zipIdx.filter fun p => first.getD 0 ≤ p.2 ∧ p.2 < last.getD items.length).map Prod.fst
  | places indices => indices.filterMap (items[·]?)
  | test e => (items.zipIdx.filter fun p => e.keeps ⟨p.2, items.length, read p.1⟩).map Prod.fst

theorem drop_take_eq (items : List α) (first last i : Nat) :
    (items.take (last - i)).drop (first - i) =
      ((items.zipIdx i).filter fun p => first ≤ p.2 ∧ p.2 < last).map Prod.fst := by
  induction items generalizing i with
  | nil => simp
  | cons item rest ih =>
    have hnext := ih (i + 1)
    rw [List.zipIdx_cons, List.filter_cons]
    by_cases hlast : i < last
    · obtain ⟨m, hm⟩ : ∃ m, last - i = m + 1 := ⟨last - i - 1, by omega⟩
      have hm' : last - (i + 1) = m := by omega
      rw [hm'] at hnext
      rw [hm, List.take_succ_cons]
      by_cases hfirst : first ≤ i
      · have hzero : first - i = 0 ∧ first - (i + 1) = 0 := by omega
        rw [hzero.2] at hnext
        simpa [hzero.1, hfirst, hlast] using hnext
      · obtain ⟨k, hk⟩ : ∃ k, first - i = k + 1 := ⟨first - i - 1, by omega⟩
        have hk' : first - (i + 1) = k := by omega
        rw [hk'] at hnext
        simpa [hk, hfirst] using hnext
    · have hzero : last - i = 0 ∧ last - (i + 1) = 0 := by omega
      rw [hzero.2] at hnext
      simpa [hzero.1, hlast] using hnext

theorem passing_eq (e : Filter.Expr) (count : Nat) (read : α → Option String → Option Value)
    (i : Nat) (items : List α) :
    passing e count read i items =
      ((items.zipIdx i).filter fun p => e.keeps ⟨p.2, count, read p.1⟩).map Prod.fst := by
  induction items generalizing i with
  | nil => rfl
  | cons item rest ih =>
    rw [passing, List.zipIdx_cons, List.filter_cons]
    split <;> simp [ih]

theorem applyWith_eq_kept (read : α → Option String → Option Value) (items : List α)
    (r : Refinement) : r.applyWith read items = r.kept read items := by
  cases r with
  | range first last => exact drop_take_eq items (first.getD 0) (last.getD items.length) 0
  | places indices => rfl
  | test e => exact passing_eq e items.length read 0 items

end Refinement

theorem Value.filled?_bind_asNode? (v : Value) : v.filled?.bind asNode? = v.asNode? := by
  cases v <;> rfl

section Queries

variable {ι σ : Type}

/-- A query takes no arguments, and as data the first value that is set aside. -/
theorem Cell.prepare_query (q : Query) (incoming : Option Value) (f : Frame σ) :
    (Cell.query q : Cell ι).prepare incoming f =
      let data := f.stack.staging.head?.bind Value.filled?
      let buffer := f.stack.buffer ++ incoming.toList.filter (!·.isNil)
      ([], { f with ctx := { f.ctx with data }, stack := ⟨buffer, f.stack.staging.tail⟩ }) := by
  obtain ⟨ctx, ⟨buffer, staging⟩, cuts, host⟩ := f
  cases staging <;> rfl

/-- A query returns nothing: what it finds goes to the context. -/
theorem Cell.invoke_query (h : Host ι σ) (i : Nat) (q : Query) (incoming : Option Value)
    (f : Frame σ) :
    let ctx := { f.ctx with data := f.stack.staging.head?.bind Value.filled? }
    let search := q.find h ctx f.host
    (Cell.query q).invoke h i incoming f =
      (.ok .nothing,
        { ctx := { ctx with primary := search.1, updated := search.1 }
          stack := ⟨f.stack.buffer ++ incoming.toList.filter (!·.isNil), f.stack.staging.tail⟩
          cuts := f.cuts
          host := search.2 }) := by
  rw [invoke_eq, prepare_query]
  rfl

theorem Query.find_all (h : Host ι σ) {q : Query} (hall : q.single = false)
    (htarget : q.selector ≠ targetToken) (hcurrent : q.selector ≠ currentToken)
    (hempty : q.selector ≠ "") (ctx : Context) (s : σ) :
    let (all, t) := h.findAll q.selector ((ctx.data.bind Value.asNode?).or ctx.delegate) s
    q.find h ctx s = (some (.list ((q.refine h t all).map .node)), t) := by
  unfold Query.find
  simp [hall, htarget, hcurrent, hempty]

end Queries

namespace Stage

theorem findAll_spec {s : Stage Kit ε} (hd : s.document.Grown) (selector : String)
    (start : Option NodeId) :
    ∃ found log, s.findAll selector start = (found, { s with log }) ∧
      (∀ n, n ∈ found ↔ s.document.Below (start.getD Document.root) n ∧
        ∃ parsed, Selector.read selector = .ok parsed ∧
          s.document.matchesSelector n parsed = true) ∧
      found.Pairwise s.document.Before ∧ found.Nodup := by
  obtain ⟨hmem, hordered, hnodup⟩ := Document.descendants_spec hd (start.getD Document.root)
  unfold findAll Document.select
  cases hparsed : Selector.read selector with
  | error fault => exact ⟨[], _, rfl, by simp, .nil, .nil⟩
  | ok parsed =>
    refine ⟨_, s.log, rfl, fun n => ?_, hordered.filter _, hnodup.filter _⟩
    simp [hmem]

/-- A query for all matches runs without fail. What it finds are the matching nodes below its start,
each once and in tree order, of which its refinement keeps some; this becomes the result of the
query and the target of updates. The value that comes in is pushed, the first value set aside is
taken, and nothing else changes but the log. -/
theorem query_finds_matches (settings : Settings) {q : Query} (hall : q.single = false)
    (hselector : q.selector ∉ ["", Query.targetToken, Query.currentToken]) (i : Nat)
    (incoming : Option Value) {f : Frame (Stage Kit ε)} (hd : f.host.document.Grown) :
    let d := f.host.document
    let staged := f.stack.staging.head?
    let start := ((staged.bind Value.asNode?).or f.ctx.delegate).getD Document.root
    let read := fun n name => match name with
      | some name => d.field? n name
      | none => some (.node n)
    ∃ found log,
      -- the nodes that match
      (∀ n, n ∈ found ↔ d.Below start n ∧
        ∃ parsed, Selector.read q.selector = .ok parsed ∧ d.matchesSelector n parsed = true) ∧
      found.Pairwise d.Before ∧ found.Nodup ∧
      -- what becomes of them
      let kept := match q.refinement with
        | none => found
        | some r => r.kept read found
      let result := some (.list (kept.map .node))
      (Cell.query q).invoke (host settings) i incoming f =
        (.ok .nothing,
          { ctx := { f.ctx with
              data := staged.bind Value.filled?, primary := result, updated := result }
            stack := ⟨f.stack.buffer ++ incoming.toList.filter (!·.isNil), f.stack.staging.tail⟩
            cuts := f.cuts
            host := { f.host with log } }) := by
  intro d staged start read
  simp only [List.mem_cons, List.not_mem_nil, or_false, not_or] at hselector
  obtain ⟨hempty, htarget, hcurrent⟩ := hselector
  have hstart : (staged.bind Value.filled?).bind Value.asNode? = staged.bind Value.asNode? := by
    rw [Option.bind_assoc]
    exact congrArg staged.bind (funext Value.filled?_bind_asNode?)
  obtain ⟨found, log, hfound, hspec⟩ := findAll_spec hd q.selector
    ((staged.bind Value.asNode?).or f.ctx.delegate)
  refine ⟨found, log, hspec.1, hspec.2.1, hspec.2.2, ?_⟩
  intro kept result
  have hfind := Query.find_all (host settings) hall htarget hcurrent hempty
    { f.ctx with data := staged.bind Value.filled? } f.host
  rw [hstart] at hfind
  simp only [show (host settings).findAll = findAll (ε := ε) from rfl, hfound] at hfind
  have hkept : q.refine (host settings) { f.host with log } found = kept := by
    simp only [Query.refine, kept]
    cases q.refinement with
    | none => rfl
    | some r => exact Refinement.applyWith_eq_kept read found r
  rw [Cell.invoke_query, hfind, hkept]

def threeItems : Frame (Stage Kit Unit) where
  ctx := .listener Document.root Document.root
  stack := ⟨[.null], [.node ⟨1⟩, .null]⟩
  cuts := []
  host :=
    let item (d : Document) := (d.create "li" (some ⟨1⟩)).2
    { Stage.empty () with document := item (item (item (Document.empty.create "ul" none).2)) }

theorem threeItems_found :
    let run := (Cell.query ⟨"li", false, some (.range (some 1) none)⟩).invoke (host .standard) 1
      (some (.bool true)) threeItems
    run.2.ctx.updated.map Value.nodes = some [⟨3⟩, ⟨4⟩] ∧
      run.2.stack = ⟨[.null, .bool true], [.null]⟩ := by
  have hgrown : threeItems.host.document.Grown := by
    refine .create "li" _ (.create "li" _ (.create "li" _ (.create "ul" none .empty ?_) ?_) ?_) ?_
    · simp
    all_goals
      rintro _ ⟨⟩
      rfl
  obtain ⟨_, _, -, -, -, hrun⟩ := query_finds_matches .standard
    (q := ⟨"li", false, some (.range (some 1) none)⟩) rfl (by decide) 1 (some (.bool true)) hgrown
  refine ⟨by decide +kernel, ?_⟩
  exact congrArg (fun run => run.2.stack) hrun

end Stage

end AttrChain
