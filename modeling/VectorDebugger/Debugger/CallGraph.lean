import Mathlib.Data.Finset.Card
import Mathlib.Data.Finset.Dedup
import VectorDebugger.Debugger.Annotations

/-!
# The call-graph view

`buildCallGraphModel` makes a node of every object and of every link target that is not one, and an
edge of every link that is not there yet.
-/

namespace VectorDebugger

/-- `CallGraphNode`. -/
structure CallGraphNode where
  /-- `address`. -/
  address : Word
  /-- `name`. -/
  name : Text
  /-- `type`. -/
  type : RdbObjectType
  /-- `comment`. -/
  comment : Text
  /-- `size`. -/
  size : BitVec 32
  /-- `hasSize`. -/
  hasSize : Bool
  /-- `unresolved` — a link leads to the address, and no object is there. -/
  unresolved : Bool
  /-- `properties`. -/
  properties : List (Text × RdbPropertyValue)

/-- `GraphEdge`. -/
structure GraphEdge where
  /-- `source`. -/
  source : Word
  /-- `target`. -/
  target : Word
deriving DecidableEq, Repr

/-- `CallGraphModel`. -/
structure CallGraphModel where
  /-- `nodes`. -/
  nodes : List CallGraphNode
  /-- `edges`. -/
  edges : List GraphEdge
  /-- `addressToIndex`. -/
  addressToIndex : Word → Option Nat
  /-- `unresolvedCount`. -/
  unresolvedCount : Nat

/-- The node of an object. -/
def RdbObject.node (obj : RdbObject) : CallGraphNode where
  address := obj.address
  name := obj.name
  type := obj.type
  comment := obj.comment
  size := obj.size
  hasSize := obj.hasSize
  unresolved := false
  properties := obj.properties

/-- The node of an address without an object. -/
def unresolvedNode (address : Word) : CallGraphNode where
  address := address
  name := []
  type := .unknown
  comment := []
  size := 0
  hasSize := false
  unresolved := true
  properties := []

namespace CallGraphModel

/-- A model as constructed. -/
def empty : CallGraphModel where
  nodes := []
  edges := []
  addressToIndex := fun _ => none
  unresolvedCount := 0

/-- Append a node and enter it in the index. -/
def pushNode (model : CallGraphModel) (node : CallGraphNode) : CallGraphModel :=
  { model with
    addressToIndex := Function.update model.addressToIndex node.address (some model.nodes.length)
    nodes := model.nodes ++ [node] }

/-- The first pass on one object. An address that has a node already is skipped. -/
def addObject (model : CallGraphModel) (obj : RdbObject) : CallGraphModel :=
  if (model.addressToIndex obj.address).isSome then model else model.pushNode obj.node

/-- `edgeKey`. -/
def edgeKey (source target : Word) : BitVec 32 :=
  (source.setWidth 32 <<< 16) ||| target.setWidth 32

/-- The second pass on one link, with `seenEdges`. -/
def addLink (source : Word) (state : CallGraphModel × Finset (BitVec 32)) (targetAddr : Word) :
    CallGraphModel × Finset (BitVec 32) :=
  let (model, seenEdges) := state
  if edgeKey source targetAddr ∈ seenEdges then state
  else
    let model :=
      if (model.addressToIndex targetAddr).isSome then model
      else
        { model.pushNode (unresolvedNode targetAddr) with
          unresolvedCount := model.unresolvedCount + 1 }
    ({ model with edges := model.edges ++ [{ source, target := targetAddr }] },
      insert (edgeKey source targetAddr) seenEdges)

/-- The second pass on one object. -/
def addLinks (state : CallGraphModel × Finset (BitVec 32)) (obj : RdbObject) :
    CallGraphModel × Finset (BitVec 32) :=
  if (state.1.addressToIndex obj.address).isSome then obj.links.foldl (addLink obj.address) state
  else state

/-- `buildCallGraphModel`. -/
def buildCallGraphModel (objects : List RdbObject) : CallGraphModel :=
  (objects.foldl addLinks (objects.foldl addObject empty, ∅)).1

/-- The link targets that are not objects. -/
def unresolvedTargets (objects : List RdbObject) : Finset Word :=
  ((objects.flatMap (·.links)).filter fun target =>
    !(objects.map (·.address)).contains target).toFinset

/-- The key tells the links apart. -/
theorem edgeKey_inj {source target source' target' : Word}
    (same : edgeKey source target = edgeKey source' target') :
    source = source' ∧ target = target' := by
  have bits : ∀ (s t : Word) (i : Nat), (edgeKey s t).getLsbD i =
      if i < 16 then t.getLsbD i else s.getLsbD (i - 16) := by
    intro s t i
    unfold edgeKey
    rw [BitVec.getLsbD_or, BitVec.getLsbD_shiftLeft, BitVec.getLsbD_setWidth,
      BitVec.getLsbD_setWidth]
    by_cases low : i < 16
    · have inside : i < 32 := by omega
      simp [low, inside]
    · by_cases inside : i < 32
      · have back : i - 16 < 32 := by omega
        have none : t.getLsbD i = false := BitVec.getLsbD_of_ge t i (by omega)
        simp [low, inside, none, back]
      · have none : s.getLsbD (i - 16) = false := BitVec.getLsbD_of_ge s _ (by omega)
        simp [low, inside, none]
  constructor
  · refine BitVec.eq_of_getLsbD_eq fun i below => ?_
    have here := congrArg (·.getLsbD (i + 16)) same
    simp only [bits, Nat.add_sub_cancel, if_neg (show ¬ i + 16 < 16 by omega)] at here
    exact here
  · refine BitVec.eq_of_getLsbD_eq fun i below => ?_
    have here := congrArg (·.getLsbD i) same
    simp only [bits, if_pos below] at here
    exact here

/-- What the model has after some objects and the links in `pairs`. -/
structure Shows (objects : List RdbObject) (pairs : List (Word × Word)) (model : CallGraphModel)
    (seenEdges : Finset (BitVec 32)) : Prop where
  indexed : ∀ a, (model.addressToIndex a).isSome = true ↔ a ∈ model.nodes.map (·.address)
  nodup : (model.nodes.map (·.address)).Nodup
  mem_nodes : ∀ a, a ∈ model.nodes.map (·.address) ↔
    a ∈ objects.map (·.address) ∨ a ∈ pairs.map Prod.snd
  seen : ∀ source target, edgeKey source target ∈ seenEdges ↔ (source, target) ∈ pairs
  nodup_edges : model.edges.Nodup
  mem_edges : ∀ edge, edge ∈ model.edges ↔ (edge.source, edge.target) ∈ pairs
  count : model.unresolvedCount = (model.nodes.filter (·.unresolved)).length
  marked : ∀ node ∈ model.nodes, node.unresolved = true ↔ node.address ∉ objects.map (·.address)
  resolved : ∀ node ∈ model.nodes, node.unresolved = false → ∃ obj ∈ objects, node = obj.node

variable {objects : List RdbObject} {pairs : List (Word × Word)} {model : CallGraphModel}
  {seenEdges : Finset (BitVec 32)}

theorem pushNode_indexed (indexed : ∀ a, (model.addressToIndex a).isSome = true ↔
    a ∈ model.nodes.map (·.address)) (node : CallGraphNode) (a : Word) :
    ((model.pushNode node).addressToIndex a).isSome = true ↔
      a ∈ (model.pushNode node).nodes.map (·.address) := by
  show (Function.update model.addressToIndex _ _ a).isSome = true ↔
    a ∈ (model.nodes ++ [node]).map (·.address)
  rw [List.map_append, List.mem_append, List.map_singleton, List.mem_singleton]
  by_cases same : a = node.address
  · rw [same, Function.update_self]
    exact iff_of_true rfl (Or.inr rfl)
  · rw [Function.update_of_ne same, indexed]
    exact (or_iff_left same).symm

theorem pushNode_nodup (nodup : (model.nodes.map (·.address)).Nodup) (node : CallGraphNode)
    (fresh : node.address ∉ model.nodes.map (·.address)) :
    ((model.pushNode node).nodes.map (·.address)).Nodup := by
  show ((model.nodes ++ [node]).map (·.address)).Nodup
  rw [List.map_append, List.map_singleton]
  exact List.nodup_append.mpr ⟨nodup, List.nodup_singleton _, by
    intro a listed b last same
    rw [List.mem_singleton.mp last] at same
    exact fresh (same ▸ listed)⟩

/-- The first pass adds one object. -/
theorem Shows.addObject (shows : model.Shows objects [] ∅) (obj : RdbObject) :
    (model.addObject obj).Shows (objects ++ [obj]) [] ∅ := by
  have listed : ∀ a, a ∈ (objects ++ [obj]).map (·.address) ↔
      a ∈ objects.map (·.address) ∨ a = obj.address := by
    intro a
    rw [List.map_append, List.mem_append, List.map_singleton, List.mem_singleton]
  unfold CallGraphModel.addObject
  by_cases known : (model.addressToIndex obj.address).isSome = true
  · rw [if_pos known]
    have there := (shows.mem_nodes _).mp ((shows.indexed _).mp known)
    rw [List.map_nil, or_iff_left List.not_mem_nil] at there
    have same : ∀ a, a ∈ (objects ++ [obj]).map (·.address) ↔ a ∈ objects.map (·.address) := by
      intro a
      rw [listed]
      constructor
      · rintro (old | rfl)
        · exact old
        · exact there
      · exact Or.inl
    exact {
      indexed := shows.indexed
      nodup := shows.nodup
      mem_nodes := fun a => (shows.mem_nodes a).trans (or_congr_left (same a).symm)
      seen := shows.seen
      nodup_edges := shows.nodup_edges
      mem_edges := shows.mem_edges
      count := shows.count
      marked := fun node inside => (shows.marked node inside).trans (not_congr (same _).symm)
      resolved := fun node inside clear => by
        obtain ⟨first, before, eq⟩ := shows.resolved node inside clear
        exact ⟨first, List.mem_append_left _ before, eq⟩ }
  · rw [if_neg known]
    have fresh : obj.address ∉ model.nodes.map (·.address) := fun there =>
      known ((shows.indexed _).mpr there)
    have none : ∀ node ∈ model.nodes, node.address ≠ obj.address := fun node inside same =>
      fresh (same ▸ List.mem_map_of_mem inside)
    exact {
      indexed := pushNode_indexed shows.indexed obj.node
      nodup := pushNode_nodup shows.nodup obj.node fresh
      mem_nodes := fun a => by
        show a ∈ (model.nodes ++ [obj.node]).map (·.address) ↔ _
        rw [List.map_append, List.mem_append, List.map_singleton, List.mem_singleton,
          shows.mem_nodes, listed, List.map_nil, or_iff_left List.not_mem_nil,
          or_iff_left List.not_mem_nil]
        rfl
      seen := shows.seen
      nodup_edges := shows.nodup_edges
      mem_edges := shows.mem_edges
      count := by
        show model.unresolvedCount = ((model.nodes ++ [obj.node]).filter (·.unresolved)).length
        rw [List.filter_append, List.length_append, shows.count]
        rfl
      marked := fun node inside => by
        rw [listed]
        rcases List.mem_append.mp inside with old | last
        · rw [or_iff_left (none node old)]
          exact shows.marked node old
        · rw [List.mem_singleton.mp last]
          exact iff_of_false Bool.false_ne_true (not_not_intro (Or.inr rfl))
      resolved := fun node inside clear => by
        rcases List.mem_append.mp inside with old | last
        · obtain ⟨first, before, eq⟩ := shows.resolved node old clear
          exact ⟨first, List.mem_append_left _ before, eq⟩
        · exact ⟨obj, List.mem_append_right _ List.mem_cons_self, List.mem_singleton.mp last⟩ }

/-- The second pass adds one link of an object. -/
theorem Shows.addLink (shows : model.Shows objects pairs seenEdges) (source target : Word) :
    (addLink source (model, seenEdges) target).1.Shows objects (pairs ++ [(source, target)])
      (addLink source (model, seenEdges) target).2 := by
  have listed : ∀ pair, pair ∈ pairs ++ [(source, target)] ↔
      pair ∈ pairs ∨ pair = (source, target) := by
    intro pair
    rw [List.mem_append, List.mem_singleton]
  have targets : ∀ a, a ∈ (pairs ++ [(source, target)]).map Prod.snd ↔
      a ∈ pairs.map Prod.snd ∨ a = target := by
    intro a
    rw [List.map_append, List.mem_append, List.map_singleton, List.mem_singleton]
  unfold CallGraphModel.addLink
  dsimp only
  by_cases twice : edgeKey source target ∈ seenEdges
  · rw [if_pos twice]
    have old := (shows.seen source target).mp twice
    have same : ∀ pair, pair ∈ pairs ++ [(source, target)] ↔ pair ∈ pairs := by
      intro pair
      rw [listed]
      exact or_iff_left_of_imp fun eq => eq ▸ old
    have sameTarget : ∀ a, a ∈ (pairs ++ [(source, target)]).map Prod.snd ↔
        a ∈ pairs.map Prod.snd := by
      intro a
      rw [targets]
      exact or_iff_left_of_imp fun eq => eq ▸ List.mem_map.mpr ⟨_, old, rfl⟩
    exact {
      shows with
      mem_nodes := fun a => (shows.mem_nodes a).trans (or_congr_right (sameTarget a).symm)
      seen := fun s t => (shows.seen s t).trans (same (s, t)).symm
      mem_edges := fun edge => (shows.mem_edges edge).trans (same _).symm }
  · rw [if_neg twice]
    have newPair : (source, target) ∉ pairs := fun old => twice ((shows.seen _ _).mpr old)
    have seen : ∀ s t, edgeKey s t ∈ insert (edgeKey source target) seenEdges ↔
        (s, t) ∈ pairs ++ [(source, target)] := by
      intro s t
      rw [Finset.mem_insert, listed, shows.seen, or_comm]
      refine or_congr_right ⟨fun key => ?_, fun pair => ?_⟩
      · obtain ⟨rfl, rfl⟩ := edgeKey_inj key
        rfl
      · obtain ⟨rfl, rfl⟩ := Prod.mk.inj pair
        rfl
    have nodupEdges : (model.edges ++ [{ source, target : GraphEdge }]).Nodup := by
      refine List.nodup_append.mpr ⟨shows.nodup_edges, List.nodup_singleton _, ?_⟩
      intro a old b last same
      rw [List.mem_singleton.mp last] at same
      rw [same] at old
      exact newPair ((shows.mem_edges _).mp old)
    have memEdges : ∀ edge, edge ∈ model.edges ++ [{ source, target : GraphEdge }] ↔
        (edge.source, edge.target) ∈ pairs ++ [(source, target)] := by
      intro edge
      rw [listed, List.mem_append, List.mem_singleton, shows.mem_edges]
      refine or_congr_right ⟨fun eq => eq ▸ rfl, fun eq => ?_⟩
      obtain ⟨first, second⟩ := Prod.mk.inj eq
      cases edge
      cases first
      cases second
      rfl
    by_cases known : (model.addressToIndex target).isSome = true
    · rw [if_pos known]
      have there := (shows.mem_nodes _).mp ((shows.indexed _).mp known)
      exact {
        indexed := shows.indexed
        nodup := shows.nodup
        mem_nodes := fun a => by
          rw [shows.mem_nodes, targets, ← or_assoc]
          exact (or_iff_left_of_imp fun eq => eq ▸ there).symm
        seen := seen
        nodup_edges := nodupEdges
        mem_edges := memEdges
        count := shows.count
        marked := shows.marked
        resolved := shows.resolved }
    · rw [if_neg known]
      have fresh : target ∉ model.nodes.map (·.address) := fun there =>
        known ((shows.indexed _).mpr there)
      have noObject : target ∉ objects.map (·.address) := fun there =>
        fresh ((shows.mem_nodes _).mpr (Or.inl there))
      exact {
        indexed := pushNode_indexed shows.indexed (unresolvedNode target)
        nodup := pushNode_nodup shows.nodup (unresolvedNode target) fresh
        mem_nodes := fun a => by
          show a ∈ (model.nodes ++ [unresolvedNode target]).map (·.address) ↔ _
          rw [List.map_append, List.mem_append, List.map_singleton, List.mem_singleton,
            shows.mem_nodes, targets, or_assoc]
          rfl
        seen := seen
        nodup_edges := nodupEdges
        mem_edges := memEdges
        count := by
          show model.unresolvedCount + 1 =
            ((model.nodes ++ [unresolvedNode target]).filter (·.unresolved)).length
          rw [List.filter_append, List.length_append, shows.count]
          rfl
        marked := fun node inside => by
          rcases List.mem_append.mp inside with old | last
          · exact shows.marked node old
          · rw [List.mem_singleton.mp last]
            exact iff_of_true rfl noObject
        resolved := fun node inside clear => by
          rcases List.mem_append.mp inside with old | last
          · exact shows.resolved node old clear
          · rw [List.mem_singleton.mp last] at clear
            exact absurd (show false = true from clear.symm) Bool.false_ne_true }

/-- The first pass adds its objects. -/
theorem Shows.addObjects (more : List RdbObject) :
    ∀ {objects : List RdbObject} {model : CallGraphModel}, model.Shows objects [] ∅ →
      (more.foldl CallGraphModel.addObject model).Shows (objects ++ more) [] ∅ := by
  induction more with
  | nil =>
    intro objects model shows
    rw [List.append_nil]
    exact shows
  | cons obj more inductionHypothesis =>
    intro objects model shows
    rw [List.append_cons]
    exact inductionHypothesis (shows.addObject obj)

/-- The second pass adds the links of an object. -/
theorem Shows.addTargets (source : Word) (targets : List Word) :
    ∀ {pairs : List (Word × Word)} {state : CallGraphModel × Finset (BitVec 32)},
      state.1.Shows objects pairs state.2 →
        (targets.foldl (CallGraphModel.addLink source) state).1.Shows objects
          (pairs ++ targets.map (source, ·))
          (targets.foldl (CallGraphModel.addLink source) state).2 := by
  induction targets with
  | nil =>
    intro pairs state shows
    rw [List.map_nil, List.append_nil]
    exact shows
  | cons target targets inductionHypothesis =>
    intro pairs state shows
    rw [List.map_cons, List.append_cons]
    exact inductionHypothesis (shows.addLink source target)

/-- The links of some objects. -/
def linkPairs (objects : List RdbObject) : List (Word × Word) :=
  objects.flatMap fun obj => obj.links.map (obj.address, ·)

/-- The second pass adds the links of its objects, each of which has a node. -/
theorem Shows.addAllLinks (more : List RdbObject) (nodes : more ⊆ objects) :
    ∀ {pairs : List (Word × Word)} {state : CallGraphModel × Finset (BitVec 32)},
      state.1.Shows objects pairs state.2 →
        (more.foldl CallGraphModel.addLinks state).1.Shows objects (pairs ++ linkPairs more)
          (more.foldl CallGraphModel.addLinks state).2 := by
  induction more with
  | nil =>
    intro pairs state shows
    unfold linkPairs
    rw [List.flatMap_nil, List.append_nil]
    exact shows
  | cons obj more inductionHypothesis =>
    intro pairs state shows
    have listed : obj.address ∈ objects.map (·.address) :=
      List.mem_map_of_mem (nodes List.mem_cons_self)
    have known : (state.1.addressToIndex obj.address).isSome = true :=
      (shows.indexed _).mpr ((shows.mem_nodes _).mpr (Or.inl listed))
    have here : addLinks state obj = obj.links.foldl (CallGraphModel.addLink obj.address) state :=
      if_pos known
    have split' : linkPairs (obj :: more) =
        obj.links.map (obj.address, ·) ++ linkPairs more := List.flatMap_cons
    rw [List.foldl_cons, here, split', ← List.append_assoc]
    exact inductionHypothesis (fun other inside => nodes (List.mem_cons_of_mem obj inside))
      (shows.addTargets obj.address obj.links)

/-- A model as constructed shows nothing. -/
theorem shows_empty : empty.Shows [] [] ∅ where
  indexed := fun _ => iff_of_false Bool.false_ne_true List.not_mem_nil
  nodup := List.nodup_nil
  mem_nodes := fun _ => iff_of_false List.not_mem_nil fun either =>
    either.elim List.not_mem_nil List.not_mem_nil
  seen := fun _ _ => iff_of_false (Finset.notMem_empty _) List.not_mem_nil
  nodup_edges := List.nodup_nil
  mem_edges := fun _ => iff_of_false List.not_mem_nil List.not_mem_nil
  count := rfl
  marked := fun _ inside => absurd inside List.not_mem_nil
  resolved := fun _ inside => absurd inside List.not_mem_nil

/-- The finished model shows the objects and their links. -/
theorem shows_build (objects : List RdbObject) :
    ∃ seenEdges, (buildCallGraphModel objects).Shows objects (linkPairs objects) seenEdges := by
  have first := shows_empty.addObjects objects
  have second : ∀ state : CallGraphModel × Finset (BitVec 32), state.1.Shows objects [] state.2 →
      (objects.foldl CallGraphModel.addLinks state).1.Shows objects ([] ++ linkPairs objects)
        (objects.foldl CallGraphModel.addLinks state).2 :=
    fun _ shows => shows.addAllLinks objects (List.Subset.refl objects)
  exact ⟨_, second (objects.foldl CallGraphModel.addObject empty, ∅) first⟩

theorem mem_linkPairs {objects : List RdbObject} {source target : Word} :
    (source, target) ∈ linkPairs objects ↔
      ∃ obj ∈ objects, obj.address = source ∧ target ∈ obj.links := by
  unfold linkPairs
  rw [List.mem_flatMap]
  refine exists_congr fun obj => and_congr_right fun _ => ?_
  rw [List.mem_map]
  constructor
  · rintro ⟨link, listed, eq⟩
    obtain ⟨rfl, rfl⟩ := Prod.mk.inj eq
    exact ⟨rfl, listed⟩
  · rintro ⟨rfl, listed⟩
    exact ⟨target, listed, rfl⟩

theorem mem_linkTargets {objects : List RdbObject} {a : Word} :
    a ∈ (linkPairs objects).map Prod.snd ↔ ∃ obj ∈ objects, a ∈ obj.links := by
  rw [List.mem_map]
  constructor
  · rintro ⟨⟨source, target⟩, listed, rfl⟩
    obtain ⟨obj, inside, -, link⟩ := mem_linkPairs.mp listed
    exact ⟨obj, inside, link⟩
  · rintro ⟨obj, inside, link⟩
    exact ⟨(obj.address, a), mem_linkPairs.mpr ⟨obj, inside, rfl, link⟩, rfl⟩

theorem mem_unresolvedTargets {objects : List RdbObject} {a : Word} :
    a ∈ unresolvedTargets objects ↔
      (∃ obj ∈ objects, a ∈ obj.links) ∧ a ∉ objects.map (·.address) := by
  unfold unresolvedTargets
  rw [List.mem_toFinset, List.mem_filter, List.mem_flatMap, Bool.not_eq_true', ← Bool.not_eq_true,
    List.contains_iff_mem]

/-- The call-graph view shows the database: one node for every address that is an object or a link
target, one edge for every link, and both of its ends are nodes. The nodes that are marked
unresolved are the link targets without an object, and they are counted. -/
theorem buildCallGraphModel_shows (objects : List RdbObject) :
    let model := buildCallGraphModel objects
    (model.nodes.map (·.address)).Nodup ∧
      (∀ a, a ∈ model.nodes.map (·.address) ↔
        (∃ obj ∈ objects, obj.address = a) ∨ ∃ obj ∈ objects, a ∈ obj.links) ∧
      model.edges.Nodup ∧
      (∀ edge, edge ∈ model.edges ↔
        ∃ obj ∈ objects, obj.address = edge.source ∧ edge.target ∈ obj.links) ∧
      (∀ edge ∈ model.edges, edge.source ∈ model.nodes.map (·.address) ∧
        edge.target ∈ model.nodes.map (·.address)) ∧
      model.unresolvedCount = (unresolvedTargets objects).card ∧
      (∀ node ∈ model.nodes, node.unresolved = true ↔
        node.address ∈ unresolvedTargets objects) ∧
      ∀ node ∈ model.nodes, node.unresolved = false → ∃ obj ∈ objects, node = obj.node := by
  dsimp only
  obtain ⟨seenEdges, shows⟩ := shows_build objects
  generalize buildCallGraphModel objects = model at shows
  have nodes : ∀ a, a ∈ model.nodes.map (·.address) ↔
      (∃ obj ∈ objects, obj.address = a) ∨ ∃ obj ∈ objects, a ∈ obj.links := by
    intro a
    rw [shows.mem_nodes, mem_linkTargets, List.mem_map]
  have edges : ∀ edge, edge ∈ model.edges ↔
      ∃ obj ∈ objects, obj.address = edge.source ∧ edge.target ∈ obj.links := fun edge =>
    (shows.mem_edges edge).trans mem_linkPairs
  have marked : ∀ node ∈ model.nodes, node.unresolved = true ↔
      node.address ∈ unresolvedTargets objects := by
    intro node inside
    rw [shows.marked node inside, mem_unresolvedTargets]
    refine ⟨fun other => ⟨?_, other⟩, And.right⟩
    have there := (shows.mem_nodes _).mp (List.mem_map_of_mem inside)
    exact mem_linkTargets.mp (there.resolve_left other)
  refine ⟨shows.nodup, nodes, shows.nodup_edges, edges, ?_, ?_, marked, shows.resolved⟩
  · intro edge listed
    obtain ⟨obj, inside, source, target⟩ := (edges edge).mp listed
    exact ⟨(nodes _).mpr (Or.inl ⟨obj, inside, source⟩),
      (nodes _).mpr (Or.inr ⟨obj, inside, target⟩)⟩
  · have same : (unresolvedTargets objects) =
        ((model.nodes.filter (·.unresolved)).map (·.address)).toFinset := by
      ext a
      rw [List.mem_toFinset, List.mem_map]
      constructor
      · intro target
        have there : a ∈ model.nodes.map (·.address) :=
          (nodes a).mpr (Or.inr (mem_unresolvedTargets.mp target).1)
        obtain ⟨node, inside, rfl⟩ := List.mem_map.mp there
        exact ⟨node, List.mem_filter.mpr ⟨inside, (marked node inside).mpr target⟩, rfl⟩
      · rintro ⟨node, listed, rfl⟩
        obtain ⟨inside, mark⟩ := List.mem_filter.mp listed
        exact (marked node inside).mp mark
    have distinct : ((model.nodes.filter (·.unresolved)).map (·.address)).Nodup :=
      shows.nodup.sublist (List.filter_sublist.map _)
    rw [same, List.toFinset_card_of_nodup distinct, List.length_map, shows.count]

end CallGraphModel

end VectorDebugger
