import Gqlforge.EvalReach
import Gqlforge.IoSharing

namespace Gqlforge.IoVisits

open Resolvers SelectionSets EvalContext Eval EvalReach

section

variable {m : Type → Type} [Monad m] (modifier : Io → m Io)

mutual

def modifyIoM : IR → m IR
  | .io io => do
    let io ← modifier io
    return .io io
  | .cache cache => do
    let io ← modifier cache.io
    return .cache ⟨cache.maxAge, io⟩
  | .discriminate discriminator expr => do
    let expr ← modifyIoM expr
    return .discriminate discriminator expr
  | .protect auth accessExpr expr => do
    let expr ← modifyIoM expr
    return .protect auth accessExpr expr
  | .path input path => do
    let input ← modifyIoM input
    return .path input path
  | .pipe first second => do
    let first ← modifyIoM first
    let second ← modifyIoM second
    return .pipe first second
  | .entity map => do
    let map ← modifyIoValuesM map
    return .entity map
  | .map input map => do
    let input ← modifyIoM input
    return .map input map
  | ir => return ir

def modifyIoValuesM : List (String × IR) → m (List (String × IR))
  | [] => return []
  | (name, ir) :: rest => do
    let ir ← modifyIoM ir
    let rest ← modifyIoValuesM rest
    return (name, ir) :: rest

end

end

def visit (modifier : Io → Io) (io : Io) : StateM (List Io) Io := do
  modify (· ++ [io])
  return modifier io

def visited (ir : IR) : List Io :=
  ((modifyIoM (visit id) ir).run []).2

mutual

theorem nodes_below : ∀ (ir : IR) (position : List Step) (guards : List Guard),
    ∀ node ∈ nodes position guards ir, position <+: node.position
  | .protect auth accessExpr expr, position, guards, node, hn =>
    nodes_below expr position (guards ++ [(auth, accessExpr)]) node hn
  | .path input path, position, guards, node, hn => by
    rcases List.mem_cons.mp hn with rfl | hn
    · exact List.prefix_refl _
    · exact (List.prefix_append _ _).trans (nodes_below input (position ++ [.below]) guards node hn)
  | .map input map, position, guards, node, hn => by
    rcases List.mem_cons.mp hn with rfl | hn
    · exact List.prefix_refl _
    · exact (List.prefix_append _ _).trans (nodes_below input (position ++ [.below]) guards node hn)
  | .discriminate discriminator expr, position, guards, node, hn => by
    rcases List.mem_cons.mp hn with rfl | hn
    · exact List.prefix_refl _
    · exact (List.prefix_append _ _).trans (nodes_below expr (position ++ [.below]) guards node hn)
  | .pipe first second, position, guards, node, hn => by
    rcases List.mem_cons.mp hn with rfl | hn
    · exact List.prefix_refl _
    rcases List.mem_append.mp hn with hn | hn
    · exact (List.prefix_append _ _).trans (nodes_below first (position ++ [.first]) guards node hn)
    · exact (List.prefix_append _ _).trans (nodes_below second (position ++ [.second]) guards node hn)
  | .merge irs, position, guards, node, hn => by
    rcases List.mem_cons.mp hn with rfl | hn
    · exact List.prefix_refl _
    · obtain ⟨index, hpos⟩ := nodesAll_below irs position guards 0 node hn
      exact (List.prefix_append _ _).trans hpos
  | .entity map, position, guards, node, hn => by
    rcases List.mem_cons.mp hn with rfl | hn
    · exact List.prefix_refl _
    · exact nodesEntries_below map position guards 0 node hn
  | .dynamic _, _, _, _, hn | .io _, _, _, _, hn | .cache _, _, _, _, hn | .contextPath _, _, _, _, hn
  | .service _, _, _, _, hn => by
    obtain rfl := List.mem_singleton.mp hn
    exact List.prefix_refl _

theorem nodesAll_below : ∀ (irs : List IR) (position : List Step) (guards : List Guard) (index : Nat),
    ∀ node ∈ nodesAll position guards index irs, ∃ i, position ++ [.item i] <+: node.position
  | [], _, _, _, _, hn => nomatch hn
  | ir :: rest, position, guards, index, node, hn => by
    rcases List.mem_append.mp hn with hn | hn
    · exact ⟨index, nodes_below ir (position ++ [.item index]) guards node hn⟩
    · exact nodesAll_below rest position guards (index + 1) node hn

theorem nodesEntries_below : ∀ (map : List (String × IR)) (position : List Step) (guards : List Guard) (index : Nat),
    ∀ node ∈ nodesEntries position guards index map, position <+: node.position
  | [], _, _, _, _, hn => nomatch hn
  | (name, ir) :: rest, position, guards, index, node, hn => by
    rcases List.mem_append.mp hn with hn | hn
    · exact (List.prefix_append _ _).trans (nodes_below ir (position ++ [.entry index]) guards node hn)
    · exact nodesEntries_below rest position guards (index + 1) node hn

end

def requests (nodes : List Node) : List (List Step × Io) :=
  nodes.filterMap Node.request

@[simp] theorem requests_nil : requests [] = [] := rfl

@[simp] theorem requests_append (first second : List Node) :
    requests (first ++ second) = requests first ++ requests second :=
  List.filterMap_append

@[simp] theorem requests_cons (node : Node) (rest : List Node) :
    requests (node :: rest) = node.request.toList ++ requests rest := by
  unfold requests
  rw [List.filterMap_cons]
  cases node.request <;> rfl

theorem requests_item (irs : List IR) (position : List Step) (guards : List Guard) (index : Nat) :
    ∀ entry ∈ requests (nodesAll position guards index irs), belowMerge entry.1 = true := by
  intro entry he
  obtain ⟨node, hn, hrequest⟩ := List.mem_filterMap.mp he
  obtain ⟨io, -, rfl⟩ := Option.map_eq_some_iff.mp hrequest
  obtain ⟨i, hpos⟩ := nodesAll_below irs position guards index node hn
  refine List.any_eq_true.mpr ⟨.item i, hpos.subset ?_, rfl⟩
  simp

def outer (nodes : List Node) : List Io :=
  ((requests nodes).filter fun entry => !belowMerge entry.1).map Prod.snd

@[simp] theorem outer_nil : outer [] = [] := rfl

@[simp] theorem outer_append (first second : List Node) : outer (first ++ second) = outer first ++ outer second := by
  simp [outer]

theorem outer_cons_none {node : Node} {rest : List Node} (h : requestOf node.ir = none) :
    outer (node :: rest) = outer rest := by
  simp [outer, Node.request, h]

theorem outer_item (irs : List IR) (position : List Step) (guards : List Guard) (index : Nat) :
    outer (nodesAll position guards index irs) = [] := by
  rw [outer, List.map_eq_nil_iff, List.filter_eq_nil_iff]
  intro entry he
  simp [requests_item irs position guards index entry he]

section

variable (modifier : Io → Io)

theorem run_bind_of {S α β : Type} {run : StateM S α} {next : α → StateM S β} {s s' : S} {value : α}
    (h : run.run s = (value, s')) : (run >>= next).run s = (next value).run s' := by
  rw [StateT.run_bind, h]
  rfl

theorem belowMerge_append {position : List Step} {step : Step} (h : belowMerge position = false)
    (hstep : step.isItem = false) : belowMerge (position ++ [step]) = false := by
  simp only [belowMerge, List.any_append, List.any_cons, List.any_nil, Bool.or_false, hstep]
  exact h

mutual

theorem modifyIoM_visit : ∀ (ir : IR) (position : List Step) (guards : List Guard) (calls : List Io),
    belowMerge position = false → (modifyIoM (visit modifier) ir).run calls =
      (modifyIo modifier ir, calls ++ outer (nodes position guards ir))
  | .io io, position, guards, calls, hpos => by
    simp [modifyIoM, visit, modifyIo, nodes, outer, Node.request, requestOf, hpos]
    rfl
  | .cache cache, position, guards, calls, hpos => by
    simp [modifyIoM, visit, modifyIo, nodes, outer, Node.request, requestOf, hpos]
    rfl
  | .discriminate discriminator expr, position, guards, calls, hpos => by
    rw [modifyIoM, run_bind_of (modifyIoM_visit expr (position ++ [.below]) guards calls (belowMerge_append hpos rfl)),
      nodes, outer_cons_none rfl]
    rfl
  | .protect auth accessExpr expr, position, guards, calls, hpos => by
    rw [modifyIoM, run_bind_of (modifyIoM_visit expr position (guards ++ [(auth, accessExpr)]) calls hpos), nodes]
    rfl
  | .path input path, position, guards, calls, hpos => by
    rw [modifyIoM, run_bind_of (modifyIoM_visit input (position ++ [.below]) guards calls (belowMerge_append hpos rfl)),
      nodes, outer_cons_none rfl]
    rfl
  | .pipe first second, position, guards, calls, hpos => by
    rw [modifyIoM, run_bind_of (modifyIoM_visit first (position ++ [.first]) guards calls (belowMerge_append hpos rfl)),
      run_bind_of (modifyIoM_visit second (position ++ [.second]) guards _ (belowMerge_append hpos rfl)),
      nodes, outer_cons_none rfl, outer_append, ← List.append_assoc]
    rfl
  | .entity map, position, guards, calls, hpos => by
    rw [modifyIoM, run_bind_of (modifyIoValuesM_visit map position guards 0 calls hpos), nodes, outer_cons_none rfl]
    rfl
  | .map input map, position, guards, calls, hpos => by
    rw [modifyIoM, run_bind_of (modifyIoM_visit input (position ++ [.below]) guards calls (belowMerge_append hpos rfl)),
      nodes, outer_cons_none rfl]
    rfl
  | .merge irs, position, guards, calls, hpos => by
    rw [nodes, outer_cons_none rfl, outer_item, List.append_nil]
    rfl
  | .dynamic _, position, guards, calls, hpos | .contextPath _, position, guards, calls, hpos
  | .service _, position, guards, calls, hpos => by
    rw [nodes, outer_cons_none rfl, outer_nil, List.append_nil]
    rfl

theorem modifyIoValuesM_visit : ∀ (map : List (String × IR)) (position : List Step) (guards : List Guard)
    (index : Nat) (calls : List Io), belowMerge position = false →
      (modifyIoValuesM (visit modifier) map).run calls =
        (modifyIoValues modifier map, calls ++ outer (nodesEntries position guards index map))
  | [], position, guards, index, calls, hpos => by
    rw [nodesEntries, outer_nil, List.append_nil]
    rfl
  | (name, ir) :: rest, position, guards, index, calls, hpos => by
    rw [modifyIoValuesM,
      run_bind_of (modifyIoM_visit ir (position ++ [.entry index]) guards calls (belowMerge_append hpos rfl)),
      run_bind_of (modifyIoValuesM_visit rest position guards (index + 1) _ hpos),
      nodesEntries, outer_append, ← List.append_assoc]
    rfl

end

def adjust (entry : List Step × Io) : List Step × Io :=
  if belowMerge entry.1 then entry else (entry.1, modifier entry.2)

theorem map_adjust_item (irs : List IR) (position : List Step) (guards : List Guard) (index : Nat) :
    (requests (nodesAll position guards index irs)).map (adjust modifier) =
      requests (nodesAll position guards index irs) := by
  nth_rewrite 2 [← List.map_id (requests (nodesAll position guards index irs))]
  apply List.map_congr_left
  intro entry he
  simp [adjust, requests_item irs position guards index entry he]

mutual

theorem requests_modifyIo : ∀ (ir : IR) (position : List Step) (guards : List Guard), belowMerge position = false →
    requests (nodes position guards (modifyIo modifier ir)) = (requests (nodes position guards ir)).map (adjust modifier)
  | .io io, position, guards, hpos => by
    simp [modifyIo, nodes, Node.request, requestOf, adjust, hpos]
  | .cache cache, position, guards, hpos => by
    simp [modifyIo, nodes, Node.request, requestOf, adjust, hpos]
  | .discriminate discriminator expr, position, guards, hpos => by
    have ih := requests_modifyIo expr (position ++ [.below]) guards (belowMerge_append hpos rfl)
    simp [modifyIo, nodes, Node.request, requestOf, ih]
  | .protect auth accessExpr expr, position, guards, hpos => by
    have ih := requests_modifyIo expr position (guards ++ [(auth, accessExpr)]) hpos
    simp [modifyIo, nodes, ih]
  | .path input path, position, guards, hpos => by
    have ih := requests_modifyIo input (position ++ [.below]) guards (belowMerge_append hpos rfl)
    simp [modifyIo, nodes, Node.request, requestOf, ih]
  | .pipe first second, position, guards, hpos => by
    have ih := requests_modifyIo first (position ++ [.first]) guards (belowMerge_append hpos rfl)
    have ih' := requests_modifyIo second (position ++ [.second]) guards (belowMerge_append hpos rfl)
    simp [modifyIo, nodes, Node.request, requestOf, ih, ih']
  | .entity map, position, guards, hpos => by
    have ih := requests_modifyIoValues map position guards 0 hpos
    simp [modifyIo, nodes, Node.request, requestOf, ih]
  | .map input map, position, guards, hpos => by
    have ih := requests_modifyIo input (position ++ [.below]) guards (belowMerge_append hpos rfl)
    simp [modifyIo, nodes, Node.request, requestOf, ih]
  | .merge irs, position, guards, hpos => by
    simp [modifyIo, nodes, Node.request, requestOf, map_adjust_item]
  | .dynamic _, position, guards, hpos | .contextPath _, position, guards, hpos
  | .service _, position, guards, hpos => by
    simp [modifyIo, nodes, Node.request, requestOf]

theorem requests_modifyIoValues : ∀ (map : List (String × IR)) (position : List Step) (guards : List Guard)
    (index : Nat), belowMerge position = false →
      requests (nodesEntries position guards index (modifyIoValues modifier map)) =
        (requests (nodesEntries position guards index map)).map (adjust modifier)
  | [], position, guards, index, hpos => rfl
  | (name, ir) :: rest, position, guards, index, hpos => by
    have ih := requests_modifyIo ir (position ++ [.entry index]) guards (belowMerge_append hpos rfl)
    have ih' := requests_modifyIoValues rest position guards (index + 1) hpos
    simp [modifyIoValues, nodesEntries, ih, ih']

end

theorem visited_eq (ir : IR) : visited ir = outer (nodes [] [] ir) := by
  unfold visited
  rw [modifyIoM_visit id ir [] [] [] rfl, List.nil_append]

def rename (io : Io) : Io :=
  match io with
  | .js name => .js ("_" ++ name)
  | _ => .js ""

theorem rename_ne (io : Io) : rename io ≠ io := by
  cases io with
  | js name =>
    intro he
    have hlength := congrArg String.length (Io.js.inj he)
    rw [String.length_append] at hlength
    have hone : ("_" : String).length = 1 := rfl
    omega
  | _ => simp [rename]

def Filled (ir : IR) : Prop :=
  ∀ modifier, ioNodes (modifyIo modifier ir) = (ioNodes ir).map fun entry => (entry.1, modifier entry.2)

def NoneBelowMerge (ir : IR) : Prop :=
  ∀ entry ∈ ioNodes ir, belowMerge entry.1 = false

theorem filled_iff (ir : IR) : Filled ir ↔ NoneBelowMerge ir := by
  have hadjust (modifier : Io → Io) : ioNodes (modifyIo modifier ir) = (ioNodes ir).map (adjust modifier) :=
    requests_modifyIo modifier ir [] [] rfl
  constructor
  · intro h entry he
    have hsame := h rename
    rw [hadjust, List.map_inj_left] at hsame
    by_contra hbelow
    have hkept : adjust rename entry = entry := if_pos (by simpa using hbelow)
    have hrename := hkept.symm.trans (hsame entry he)
    exact rename_ne entry.2 (congrArg Prod.snd hrename).symm
  · intro h modifier
    rw [hadjust, List.map_inj_left]
    intro entry he
    simp [adjust, h entry he]

theorem visited_iff (ir : IR) : visited ir = (ioNodes ir).map Prod.snd ↔ NoneBelowMerge ir := by
  rw [visited_eq]
  constructor
  · intro h entry he
    have hlength := congrArg List.length h
    rw [outer, List.length_map, List.length_map] at hlength
    have hkept := List.length_filter_eq_length_iff.mp hlength entry he
    simpa using hkept
  · intro h
    rw [outer, List.filter_eq_self.mpr]
    · rfl
    · intro entry he
      simp [h entry he]

theorem requests_visited {Key σ : Type} [DecidableEq Key] (runtime : Runtime Key σ) (ir : IR) (ctx : EvalContext)
    (state : RequestState Key σ) :
    (∀ entered ∈ enteredBy (eval runtime Way.start ir ctx) state, ∀ io, requestOf entered.ir = some io →
      (entered.way.position, io) ∈ ioNodes ir) ∧
    ((visited ir = (ioNodes ir).map Prod.snd ∧ Filled ir) ↔ NoneBelowMerge ir) := by
  constructor
  · intro entered he io hio
    have hnode := (eval_at ir ctx state entered he).node
    refine List.mem_filterMap.mpr ⟨_, hnode, ?_⟩
    simp [Node.request, hio]
  · rw [visited_iff, filled_iff, and_self_iff]

end

def plainRuntime : Runtime Nat Unit where
  texts := ⟨fun _ => "", fun _ => ""⟩
  wire := IoSharing.plainWire
  hash _ := 0
  backendKey _ _ _ := none
  cacheGet _ := return .ok none
  cacheSet _ _ _ := return .ok ()
  evalIoInner _ _ _ := return .ok .null

def emptyContext : EvalContext :=
  .new ⟨[], [], fun _ => none, fun _ => .succeed none⟩ .empty

def usersIo : Io :=
  .graphQL ⟨"http://upstream", .query, "users", none, [], .mk [], none⟩ "users" false

theorem requests_not_visited :
    visited (.merge [.io usersIo]) = [] ∧ ioNodes (.merge [.io usersIo]) = [([.item 0], usersIo)] ∧
      (enteredBy (eval plainRuntime Way.start (modifyIo (setSelection (some "\x7b id \x7d")) (.merge [.io usersIo]))
        emptyContext) ⟨none, [], (), []⟩).filterMap (fun entered => requestOf entered.ir) = [usersIo] :=
  ⟨rfl, rfl, rfl⟩

end Gqlforge.IoVisits
