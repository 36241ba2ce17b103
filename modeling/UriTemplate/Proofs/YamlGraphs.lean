import UriTemplate.Proofs.Data
import UriTemplate.Proofs.YamlScans
import UriTemplate.Yaml.Graph

/-!
# Closed graphs

The places in the graph of a YAML document, its root among them, are places of nodes of that graph.

* `Content.Within`, `Graph.Closed`, `Reading.Closed` — the places are among the first ones, also while a text is read;
* `Grammar.Gives` — a computation keeps a reading closed, loses no node, and gives what is wanted of the nodes that there
  are then;
* `Gives.Found`, `Gives.found` — nodes, items and entries are found among the nodes, by induction on the fuel;
* `Graph.closed_of_ofTokens` — the graph of a document is closed.
-/

namespace UriTemplate.Yaml

theorem exists_run_of_run' {σ ε α : Type} {m : StateT σ (Except ε) α} {s : σ} {a : α} (h : m.run' s = .ok a) :
    ∃ s', m.run s = .ok (a, s') := by
  unfold StateT.run' at h
  cases hrun : m s with
  | error e =>
    rw [hrun] at h
    cases h
  | ok result =>
    rw [hrun] at h
    cases h
    exact ⟨result.2, hrun⟩

/-- The places in the content are among the first `n`. -/
def Content.Within (n : Nat) : Content → Prop
  | .scalar _ => True
  | .sequence items => ∀ place ∈ items, place < n
  | .mapping entries => ∀ e ∈ entries, e.1 < n ∧ e.2 < n

theorem Content.Within.mono {n k : Nat} (hle : n ≤ k) {c : Content} (h : c.Within n) : c.Within k := by
  cases c with
  | scalar => trivial
  | sequence items => exact fun place hp => Nat.lt_of_lt_of_le (h place hp) hle
  | mapping entries =>
    intro e he
    exact ⟨Nat.lt_of_lt_of_le (h e he).1 hle, Nat.lt_of_lt_of_le (h e he).2 hle⟩

/-- Every place in the graph is the place of one of its nodes. -/
structure Graph.Closed (g : Graph) : Prop where
  root : g.root < g.nodes.size
  members : ∀ node ∈ g.nodes, node.content.Within g.nodes.size

structure Reading.Closed (s : Reading) : Prop where
  members : ∀ node ∈ s.nodes, node.content.Within s.nodes.size
  anchors : ∀ e ∈ s.anchors, e.2 < s.nodes.size

/-- From a closed reading of at least `n` nodes the computation leaves one of no fewer nodes, and gives what `post` says
of that many nodes. -/
def Grammar.Gives {α : Type} (n : Nat) (m : Grammar α) (post : Nat → α → Prop) : Prop :=
  ∀ s s' a, Reading.Closed s → n ≤ s.nodes.size → m.run s = .ok (a, s') →
    s'.Closed ∧ s.nodes.size ≤ s'.nodes.size ∧ post s'.nodes.size a

namespace Grammar.Gives

variable {α β : Type} {n : Nat} {m : Grammar α} {post : Nat → α → Prop} {post' : Nat → β → Prop}

theorem pure {a : α} (h : ∀ k, n ≤ k → post k a) : Gives n (Pure.pure a) post := by
  intro s s' b hs hn hrun
  cases hrun
  exact ⟨hs, Nat.le_refl _, h _ hn⟩

theorem throw {e : Failure} : Gives n (MonadExcept.throw e : Grammar α) post := by
  intro s s' b hs hn hrun
  cases hrun

theorem bind {f : α → Grammar β} (h : Gives n m post) (hf : ∀ k a, n ≤ k → post k a → Gives k (f a) post') :
    Gives n (m >>= f) post' := by
  intro s s' b hs hn hrun
  rw [StateT.run_bind, Except.bind_eq_ok_iff] at hrun
  obtain ⟨⟨a, s₁⟩, hm, hrun⟩ := hrun
  obtain ⟨hs₁, hle, ha⟩ := h s s₁ a hs hn hm
  obtain ⟨hs', hle', hb⟩ := hf _ a (Nat.le_trans hn hle) ha s₁ s' b hs₁ (Nat.le_refl _) hrun
  exact ⟨hs', Nat.le_trans hle hle', hb⟩

theorem throw_bind {e : Failure} {f : α → Grammar β} : Gives n (MonadExcept.throw e >>= f) post' := by
  intro s s' b hs hn hrun
  cases hrun

theorem ofExcept {e : Except Failure α} (h : ∀ a, e = .ok a → ∀ k, n ≤ k → post k a) :
    Gives n (liftM e : Grammar α) post := by
  intro s s' a hs hn hrun
  cases e with
  | error f => cases hrun
  | ok b =>
    cases hrun
    exact ⟨hs, Nat.le_refl _, h a rfl _ hn⟩

theorem get : Gives n MonadState.get fun k s => s.Closed ∧ s.nodes.size = k := by
  intro s s' a hs hn hrun
  cases hrun
  exact ⟨hs, Nat.le_refl _, hs, rfl⟩

/-- The nodes and their names stay. -/
theorem of_keeps (h : ∀ s s' a, m.run s = .ok (a, s') → s'.nodes = s.nodes ∧ s'.anchors = s.anchors) :
    Gives n m fun _ _ => True := by
  intro s s' a hs hn hrun
  obtain ⟨hnodes, hanchors⟩ := h s s' a hrun
  refine ⟨⟨?_, ?_⟩, ?_, trivial⟩
  · rw [hnodes]
    exact hs.members
  · rw [hnodes, hanchors]
    exact hs.anchors
  · exact Nat.le_of_eq (congrArg Array.size hnodes.symm)

theorem change {f : Reading → Reading} (h : ∀ s, (f s).nodes = s.nodes ∧ (f s).anchors = s.anchors) :
    Gives n (modify f : Grammar PUnit) fun _ _ => True := by
  refine of_keeps fun s s' a hrun => ?_
  cases hrun
  exact h s

/-! ### tokens -/

theorem peek : Gives n Grammar.peek fun _ _ => True := by
  refine of_keeps fun s s' t hrun => ?_
  rw [Grammar.peek, StateT.run_bind, Except.bind_eq_ok_iff] at hrun
  obtain ⟨⟨r, s₁⟩, hget, hrun⟩ := hrun
  cases hget
  dsimp only at hrun
  split at hrun
  · cases hrun
    exact ⟨rfl, rfl⟩
  · cases hrun
    exact ⟨rfl, rfl⟩
  · cases hrun

theorem next (ts : List Token) : Gives n (Grammar.next ts) fun _ _ => True :=
  peek.bind fun _ _ _ _ => pure fun _ _ => trivial

theorem skip : Gives n Grammar.skip fun _ _ => True := change fun _ => ⟨rfl, rfl⟩

theorem expect (t : Token) : Gives n (Grammar.expect t) fun _ _ => True := by
  refine (next [t]).bind fun k found _ _ => ?_
  cases found with
  | true => exact skip
  | false => exact throw

theorem accept (t : Token) : Gives n (Grammar.accept t) fun _ _ => True := by
  refine (next [t]).bind fun k found _ _ => ?_
  cases found with
  | true => exact skip.bind fun _ _ _ _ => pure fun _ _ => trivial
  | false => exact pure fun _ _ => trivial

theorem startsEntry : Gives n Grammar.startsEntry fun _ _ => True := get.bind fun _ _ _ _ => next _

theorem properties_zero (anchor : Option Text) (tag : Option TagName) :
    Gives n (Grammar.properties 0 anchor tag) fun _ _ => True := by
  rw [Grammar.properties]
  refine get.bind fun _ _ _ _ => ?_
  cases tag with
  | none => exact pure fun _ _ => trivial
  | some t => exact (ofExcept fun _ _ _ _ => trivial).bind fun _ _ _ (_ : True) => pure fun _ _ => trivial

theorem properties (fuel : Nat) (anchor : Option Text) (tag : Option TagName) :
    Gives n (Grammar.properties fuel anchor tag) fun _ _ => True := by
  induction fuel generalizing n anchor tag with
  | zero => exact properties_zero anchor tag
  | succ fuel ih =>
    rw [Grammar.properties]
    refine peek.bind fun _ _ _ _ => ?_
    split
    · exact skip.bind fun _ _ _ _ => ih _ _
    · exact skip.bind fun _ _ _ _ => ih _ _
    · exact properties_zero _ _

/-! ### single nodes -/

theorem add (p : Properties) {node : Node} (h : node.content.Within n) :
    Gives n (Grammar.add p node) fun k place => place < k := by
  intro s s' place hs hn hrun
  cases hrun
  have hsize : (s.nodes.push node).size = s.nodes.size + 1 := Array.size_push ..
  have hle : s.nodes.size ≤ (s.nodes.push node).size := by omega
  have hlast : s.nodes.size < (s.nodes.push node).size := by omega
  refine ⟨⟨?_, ?_⟩, hle, hlast⟩
  · intro other hother
    rcases Array.mem_push.1 hother with hother | rfl
    · exact (hs.members other hother).mono hle
    · exact h.mono (Nat.le_trans hn hle)
  · have hnamed : ∀ e ∈ s.anchors, e.2 < (s.nodes.push node).size :=
      fun e he => Nat.lt_of_lt_of_le (hs.anchors e he) hle
    cases p.anchor with
    | none => exact hnamed
    | some name =>
      intro e he
      rcases Table.mem_put he with he | ⟨-, hplace⟩
      · exact hnamed e he
      · rw [hplace]
        exact hlast

theorem addScalar (p : Properties) (text : Text) (plain : Bool) :
    Gives n (Grammar.addScalar p text plain) fun k place => place < k := by
  refine get.bind fun k s _ _ => ?_
  have hscalar : ∀ k (type : NodeType), Gives k (Grammar.add p ⟨type, .scalar text⟩) fun k place => place < k :=
    fun _ _ => add p trivial
  have htype : Gives k (liftM (plainType s.version text) : Grammar NodeType) fun _ _ => True :=
    ofExcept fun _ _ _ _ => trivial
  have hknown : ∀ type : NodeType, Gives k (Pure.pure type) fun _ _ => True := fun _ => pure fun _ _ => trivial
  dsimp only
  split
  · split
    · exact htype.bind fun k type _ _ => hscalar k type
    · exact (hknown _).bind fun k type _ _ => hscalar k type
  · split
    · exact htype.bind fun k type _ _ => hscalar k type
    · exact (hknown _).bind fun k type _ _ => hscalar k type

theorem empty : Gives n Grammar.empty fun k place => place < k := addScalar {} [] true

theorem replace (place : Place) {node : Node} (h : node.content.Within n) :
    Gives n (modify fun s => { s with nodes := s.nodes.set! place node } : Grammar PUnit) fun _ _ => True := by
  intro s s' a hs hn hrun
  cases hrun
  have hsize : (s.nodes.set! place node).size = s.nodes.size := Array.size_setIfInBounds ..
  refine ⟨⟨?_, ?_⟩, Nat.le_of_eq hsize.symm, trivial⟩
  · dsimp only
    rw [hsize]
    intro other hother
    rcases Array.mem_or_eq_of_mem_setIfInBounds hother with hother | rfl
    · exact hs.members other hother
    · exact h.mono hn
  · dsimp only
    rw [hsize]
    exact hs.anchors

theorem addCollection (p : Properties) (type : NodeType) {members : Grammar Content}
    (h : ∀ k, n ≤ k → Gives k members fun k c => c.Within k) :
    Gives n (Grammar.addCollection p type members) fun k place => place < k := by
  unfold Grammar.addCollection
  extract_lets type
  have hnone : (Content.sequence []).Within n := List.forall_mem_nil _
  refine (add p hnone).bind fun k place hk hplace => (h k hk).bind fun l content hl hcontent => ?_
  refine (replace place hcontent).bind fun j _ hj _ => pure fun i hi => ?_
  exact Nat.lt_of_lt_of_le hplace (Nat.le_trans hl (Nat.le_trans hj hi))

theorem aliasOf (name : Text) : Gives n (Grammar.aliasOf name) fun k place => place < k := by
  refine get.bind fun k s _ hs => ofExcept fun place hfound j hj => ?_
  obtain ⟨hs, rfl⟩ := hs
  obtain ⟨name', hmem⟩ := Table.exists_mem_of_get? (require_eq_ok_iff.1 hfound)
  exact Nat.lt_of_lt_of_le (hs.anchors _ hmem) hj

theorem nothing (p : Properties) : Gives n (Grammar.nothing p) fun k place => place < k := by
  rw [Grammar.nothing]
  split
  · exact throw
  · exact addScalar p [] true

/-- A node behind a token, or none. -/
theorem behind (t : Token) {m : Grammar Place} (h : ∀ k, n ≤ k → Gives k m fun k place => place < k) :
    Gives n (do if ← Grammar.accept t then m else Grammar.empty) fun k place => place < k := by
  refine (accept t).bind fun k found hk _ => ?_
  cases found with
  | true => exact h k hk
  | false => exact empty

theorem consItem {item : Grammar Place} {rest : Grammar (List Place)} (hitem : Gives n item fun k place => place < k)
    (hrest : ∀ k, n ≤ k → Gives k rest fun k items => (Content.sequence items).Within k) :
    Gives n (do
      let place ← item
      return place :: (← rest)) fun k items => (Content.sequence items).Within k := by
  refine hitem.bind fun k place hk hplace => (hrest k hk).bind fun l items hl hitems => pure fun j hj => ?_
  exact List.forall_mem_cons.2 ⟨Nat.lt_of_lt_of_le hplace (Nat.le_trans hl hj), Content.Within.mono hj hitems⟩

theorem consEntry {key value : Grammar Place} {rest : Grammar (List (Place × Place))}
    (hkey : Gives n key fun k place => place < k) (hvalue : ∀ k, n ≤ k → Gives k value fun k place => place < k)
    (hrest : ∀ k, n ≤ k → Gives k rest fun k entries => (Content.mapping entries).Within k) :
    Gives n (do
      let first ← key
      let second ← value
      return (first, second) :: (← rest)) fun k entries => (Content.mapping entries).Within k := by
  refine hkey.bind fun k first hk hfirst => (hvalue k hk).bind fun l second hl hsecond => ?_
  refine (hrest l (Nat.le_trans hk hl)).bind fun j entries hj hentries => pure fun i hi => ?_
  have hboth : first < i ∧ second < i :=
    ⟨Nat.lt_of_lt_of_le hfirst (Nat.le_trans hl (Nat.le_trans hj hi)), Nat.lt_of_lt_of_le hsecond (Nat.le_trans hj hi)⟩
  exact List.forall_mem_cons.2 ⟨hboth, Content.Within.mono hi hentries⟩

/-! ### collections -/

/-- With that fuel, what is found is among the nodes that there are then. -/
structure Found (fuel : Nat) : Prop where
  node : ∀ {n : Nat} (block indentless : Bool), Gives n (Grammar.node block indentless fuel) fun k place => place < k
  nodeOrEmpty : ∀ {n : Nat} (block indentless : Bool) (ends : List Token),
    Gives n (Grammar.nodeOrEmpty block indentless ends fuel) fun k place => place < k
  blockItems : ∀ {n : Nat}, Gives n (Grammar.blockItems fuel) fun k items => (Content.sequence items).Within k
  indentlessItems : ∀ {n : Nat}, Gives n (Grammar.indentlessItems fuel) fun k items => (Content.sequence items).Within k
  blockEntries : ∀ {n : Nat}, Gives n (Grammar.blockEntries fuel) fun k entries => (Content.mapping entries).Within k
  flowItems : ∀ {n : Nat} (first : Bool),
    Gives n (Grammar.flowItems first fuel) fun k items => (Content.sequence items).Within k
  flowEntries : ∀ {n : Nat} (first : Bool),
    Gives n (Grammar.flowEntries first fuel) fun k entries => (Content.mapping entries).Within k

section

variable {fuel : Nat} (hfound : Found fuel)

include hfound

theorem node_succ (block indentless : Bool) :
    Gives n (Grammar.node block indentless (fuel + 1)) fun k place => place < k := by
  rw [Grammar.node]
  refine peek.bind fun _ _ _ _ => ?_
  split
  · exact skip.bind fun _ _ _ _ => aliasOf _
  · refine (properties 2 none none).bind fun k p _ _ => ?_
    extract_lets sequence mapping
    have hsequence : ∀ {k} {items : Grammar (List Place)},
        (∀ {n}, Gives n items fun k items => (Content.sequence items).Within k) →
        Gives k (sequence items) fun k place => place < k :=
      fun h => addCollection p _ fun _ _ => h.bind fun _ _ _ h => pure fun _ hk => Content.Within.mono hk h
    have hmapping : ∀ {k} {entries : Grammar (List (Place × Place))},
        (∀ {n}, Gives n entries fun k entries => (Content.mapping entries).Within k) →
        Gives k (mapping entries) fun k place => place < k :=
      fun h => addCollection p _ fun _ _ => h.bind fun _ _ _ h => pure fun _ hk => Content.Within.mono hk h
    refine peek.bind fun _ _ _ _ => ?_
    split
    · split
      · exact hsequence hfound.indentlessItems
      · exact nothing p
    · exact skip.bind fun _ _ _ _ => addScalar p _ _
    · exact skip.bind fun _ _ _ _ => hsequence (hfound.flowItems true)
    · exact skip.bind fun _ _ _ _ => hmapping (hfound.flowEntries true)
    · exact skip.bind fun _ _ _ _ => hsequence hfound.blockItems
    · exact skip.bind fun _ _ _ _ => hmapping hfound.blockEntries
    · exact nothing p

theorem nodeOrEmpty_succ (block indentless : Bool) (ends : List Token) :
    Gives n (Grammar.nodeOrEmpty block indentless ends (fuel + 1)) fun k place => place < k := by
  rw [Grammar.nodeOrEmpty]
  refine (next ends).bind fun k ended _ _ => ?_
  cases ended with
  | true => exact empty
  | false => exact hfound.node block indentless

theorem blockItems_succ : Gives n (Grammar.blockItems (fuel + 1)) fun k items => (Content.sequence items).Within k := by
  rw [Grammar.blockItems]
  refine (accept .blockEntry).bind fun k more _ _ => ?_
  cases more with
  | true => exact consItem (hfound.nodeOrEmpty _ _ _) fun _ _ => hfound.blockItems
  | false => exact (expect .blockEnd).bind fun _ _ _ _ => pure fun _ _ => List.forall_mem_nil _

theorem indentlessItems_succ :
    Gives n (Grammar.indentlessItems (fuel + 1)) fun k items => (Content.sequence items).Within k := by
  rw [Grammar.indentlessItems]
  refine (accept .blockEntry).bind fun k more _ _ => ?_
  cases more with
  | true => exact consItem (hfound.nodeOrEmpty _ _ _) fun _ _ => hfound.indentlessItems
  | false => exact pure fun _ _ => List.forall_mem_nil _

theorem blockEntries_succ :
    Gives n (Grammar.blockEntries (fuel + 1)) fun k entries => (Content.mapping entries).Within k := by
  rw [Grammar.blockEntries]
  refine startsEntry.bind fun k more _ _ => ?_
  cases more with
  | true =>
    refine consEntry (behind .key fun _ _ => hfound.nodeOrEmpty _ _ _) (fun _ _ => ?_) fun _ _ => hfound.blockEntries
    exact behind .value fun _ _ => hfound.nodeOrEmpty _ _ _
  | false => exact (expect .blockEnd).bind fun _ _ _ _ => pure fun _ _ => List.forall_mem_nil _

theorem flowItems_succ (first : Bool) :
    Gives n (Grammar.flowItems first (fuel + 1)) fun k items => (Content.sequence items).Within k := by
  rw [Grammar.flowItems]
  refine (accept .flowSequenceEnd).bind fun k ended _ _ => ?_
  cases ended with
  | true => exact pure fun _ _ => List.forall_mem_nil _
  | false =>
    rw [if_neg Bool.false_ne_true]
    extract_lets more
    have hmore : ∀ {k} u, Gives k (more u) fun k items => (Content.sequence items).Within k := by
      intro k u
      refine (accept .key).bind fun k pair _ _ => ?_
      cases pair with
      | true =>
        refine consItem (addCollection {} .mapping fun k _ => ?_) fun _ _ => hfound.flowItems false
        refine (hfound.nodeOrEmpty _ _ _).bind fun k key _ hkey => ?_
        refine (behind .value fun _ _ => hfound.nodeOrEmpty _ _ _).bind fun l value hl hvalue => pure fun i hi => ?_
        exact List.forall_mem_singleton.2
          ⟨Nat.lt_of_lt_of_le hkey (Nat.le_trans hl hi), Nat.lt_of_lt_of_le hvalue hi⟩
      | false =>
        refine (accept .flowSequenceEnd).bind fun k ended _ _ => ?_
        cases ended with
        | true => exact pure fun _ _ => List.forall_mem_nil _
        | false => exact consItem (hfound.node false false) fun _ _ => hfound.flowItems false
    split
    · exact (expect .flowEntry).bind fun _ _ _ _ => hmore ()
    · exact hmore ()

theorem flowEntries_succ (first : Bool) :
    Gives n (Grammar.flowEntries first (fuel + 1)) fun k entries => (Content.mapping entries).Within k := by
  rw [Grammar.flowEntries]
  refine (accept .flowMappingEnd).bind fun k ended _ _ => ?_
  cases ended with
  | true => exact pure fun _ _ => List.forall_mem_nil _
  | false =>
    rw [if_neg Bool.false_ne_true]
    extract_lets more
    have hmore : ∀ {k} u, Gives k (more u) fun k entries => (Content.mapping entries).Within k := by
      intro k u
      refine startsEntry.bind fun k starts _ _ => ?_
      cases starts with
      | true =>
        refine consEntry (behind .key fun _ _ => hfound.nodeOrEmpty _ _ _) (fun _ _ => ?_)
          fun _ _ => hfound.flowEntries false
        exact behind .value fun _ _ => hfound.nodeOrEmpty _ _ _
      | false =>
        refine (accept .flowMappingEnd).bind fun k ended _ _ => ?_
        cases ended with
        | true => exact pure fun _ _ => List.forall_mem_nil _
        | false => exact consEntry (hfound.node false false) (fun _ _ => empty) fun _ _ => hfound.flowEntries false
    split
    · exact (expect .flowEntry).bind fun _ _ _ _ => hmore ()
    · exact hmore ()

end

/-- **Places that are found are among the nodes**, by the fuel. -/
theorem found (fuel : Nat) : Found fuel := by
  induction fuel with
  | zero =>
    constructor
    · intro n block indentless
      rw [Grammar.node]
      exact throw
    · intro n block indentless ends
      rw [Grammar.nodeOrEmpty]
      exact throw
    · intro n
      rw [Grammar.blockItems]
      exact throw
    · intro n
      rw [Grammar.indentlessItems]
      exact throw
    · intro n
      rw [Grammar.blockEntries]
      exact throw
    · intro n first
      rw [Grammar.flowItems]
      exact throw
    · intro n first
      rw [Grammar.flowEntries]
      exact throw
  | succ fuel ih =>
    exact {
      node := node_succ ih
      nodeOrEmpty := nodeOrEmpty_succ ih
      blockItems := blockItems_succ ih
      indentlessItems := indentlessItems_succ ih
      blockEntries := blockEntries_succ ih
      flowItems := flowItems_succ ih
      flowEntries := flowEntries_succ ih }

/-! ### documents -/

theorem directives (fuel : Nat) (version : Option Version) (declared : Table Text Text) :
    Gives n (Grammar.directives fuel version declared) fun _ _ => True := by
  induction fuel generalizing n version declared with
  | zero => exact throw
  | succ fuel ih =>
    rw [Grammar.directives]
    refine peek.bind fun k token _ _ => ?_
    split
    · refine skip.bind fun k _ _ _ => ?_
      dsimp only
      split
      · exact throw_bind
      · exact ih _ _
    · exact throw
    · refine skip.bind fun k _ _ _ => ?_
      dsimp only
      split
      · exact throw_bind
      · exact ih _ _
    · exact skip.bind fun _ _ _ _ => ih _ _
    · exact change fun _ => ⟨rfl, rfl⟩

theorem content (fuel : Nat) : Gives n (Grammar.content fuel) fun k place => place < k := by
  refine peek.bind fun k token _ _ => ?_
  split
  · exact empty
  · exact (found fuel).node true false

theorem documentEnds (fuel : Nat) : Gives n (Grammar.documentEnds fuel) fun _ _ => True := by
  induction fuel generalizing n with
  | zero => exact pure fun _ _ => trivial
  | succ fuel ih =>
    rw [Grammar.documentEnds]
    refine (accept .documentEnd).bind fun k found _ _ => ?_
    cases found with
    | true => exact ih
    | false => exact pure fun _ _ => trivial

theorem finish (fuel : Nat) : Gives n (Grammar.finish fuel) fun _ _ => True := by
  refine get.bind fun k s _ _ => (documentEnds _).bind fun k _ _ _ => peek.bind fun k token _ _ => ?_
  split
  · exact throw
  · exact pure fun _ _ => trivial

theorem document (fuel : Nat) : Gives n (Grammar.document fuel) fun _ graph => ∀ g ∈ graph, Graph.Closed g := by
  refine peek.bind fun k token _ _ => ?_
  split
  · exact pure fun _ _ => by simp
  · have hroot : ∀ {k}, Gives k (do
        if isDirective token || token = some .documentStart then
          Grammar.directives fuel none []
          Grammar.expect .documentStart
          Grammar.content fuel
        else Grammar.node true false fuel) fun k root => root < k := by
      intro k
      split
      · exact (directives fuel none []).bind fun _ _ _ _ => (expect _).bind fun _ _ _ _ => content fuel
      · exact (found fuel).node true false
    refine hroot.bind fun k root _ hroot => (finish fuel).bind fun l _ hl _ => get.bind fun i s hi hs => ?_
    refine pure fun _ _ g hg => ?_
    obtain ⟨hs, rfl⟩ := hs
    cases hg
    exact ⟨Nat.lt_of_lt_of_le hroot (Nat.le_trans hl hi), hs.members⟩

end Grammar.Gives

/-- **Graphs of documents are closed.** -/
theorem Graph.closed_of_ofTokens {ts : TokenStream} {g : Graph} (h : Graph.ofTokens ts = .ok (some g)) : g.Closed := by
  have hbegin : Reading.Closed { rest := ts.tokens, ending := ts.ending } := ⟨by simp, List.forall_mem_nil _⟩
  obtain ⟨s, hrun⟩ := exists_run_of_run' h
  exact (Grammar.Gives.document _ _ s _ hbegin (Nat.zero_le _) hrun).2.2 g rfl

end UriTemplate.Yaml
