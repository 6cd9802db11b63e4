import Mathlib.Logic.Function.Basic
import Mathlib.Data.Nat.Notation

/-!
Trees of directories with symbolic links. A route is walked part by part, a link puts its
target in the place of its name, and only so many links are followed. A walk can be cut in
two, and a directory that is added keeps every walk that has got to its end.
-/
namespace Gingko.DirectoryTrees

/-- One part of a route. -/
inductive RoutePart (N : Type) where
  | here
  | up
  | down (name : N)

/-- A link leads on from the root or from where it lies. -/
inductive Node (N D F : Type) where
  | directory (attr : D) (parent : ℕ) (entries : N → Option ℕ)
  | symlink (rooted : Bool) (target : List (RoutePart N))
  | other (content : F)

structure Tree (N D F : Type) where
  nodes : List (Node N D F)
  root : ℕ
  links : ℕ

/-- Where one part leads: to a node, or to the target of a link from a start. -/
inductive Move (N : Type) where
  | node (i : ℕ)
  | link (start : ℕ) (target : List (RoutePart N))

variable {N D F : Type}

namespace Tree

/-- The entry of a directory, with a link told from the rest. -/
def enter (t : Tree N D F) (cur : ℕ) (entry : Option ℕ) : Option (Move N) :=
  match entry with
  | none => none
  | some i =>
    match t.nodes[i]? with
    | none => none
    | some (.symlink rooted target) => some (.link (if rooted then t.root else cur) target)
    | some _ => some (.node i)

/-- Only a directory is left for another node. -/
def move (t : Tree N D F) (cur : ℕ) (part : RoutePart N) : Option (Move N) :=
  match t.nodes[cur]? with
  | some (.directory _ parent entries) =>
    match part with
    | .here => some (.node cur)
    | .up => some (.node parent)
    | .down name => t.enter cur (entries name)
  | _ => none

def steps (t : Tree N D F) (follow : ℕ → List (RoutePart N) → Option ℕ) :
    ℕ → List (RoutePart N) → Option ℕ
  | cur, [] => some cur
  | cur, part :: rest =>
    match t.move cur part with
    | none => none
    | some (.node i) => t.steps follow i rest
    | some (.link start target) => follow start (target ++ rest)

/-- The node at the end of the route, with at most so many links on the way. -/
def walk (t : Tree N D F) : ℕ → ℕ → List (RoutePart N) → Option ℕ
  | 0 => t.steps fun _ _ => none
  | links + 1 => t.steps (t.walk links)

def IsDirectory (t : Tree N D F) (i : ℕ) : Prop :=
  ∃ attr parent entries, t.nodes[i]? = some (.directory attr parent entries)

end Tree

section Walks

variable {t t' : Tree N D F} {links cur n : ℕ} {front rest route : List (RoutePart N)}

@[simp] theorem walk_nil : t.walk links cur [] = some cur := by
  cases links <;> rfl

theorem walk_blocked {part : RoutePart N} (h : t.move cur part = none) :
    t.walk links cur (part :: rest) = none := by
  cases links <;> simp only [Tree.walk, Tree.steps, h]

theorem walk_node {part : RoutePart N} {i : ℕ} (h : t.move cur part = some (.node i)) :
    t.walk links cur (part :: rest) = t.walk links i rest := by
  cases links <;> simp only [Tree.walk, Tree.steps, h]

theorem walk_link {part : RoutePart N} {target : List (RoutePart N)} {start : ℕ}
    (h : t.move cur part = some (.link start target)) :
    t.walk (links + 1) cur (part :: rest) = t.walk links start (target ++ rest) := by
  simp only [Tree.walk, Tree.steps, h]

/-- A walk that gets to the node `n`. -/
inductive Walks (t : Tree N D F) (n : ℕ) : ℕ → ℕ → List (RoutePart N) → Prop
  | done (links : ℕ) : Walks t n links n []
  | step (links cur i : ℕ) (part : RoutePart N) (rest : List (RoutePart N))
      (hmove : t.move cur part = some (.node i)) (hrest : Walks t n links i rest) :
      Walks t n links cur (part :: rest)
  | link (links cur start : ℕ) (part : RoutePart N) (rest target : List (RoutePart N))
      (hmove : t.move cur part = some (.link start target))
      (hrest : Walks t n links start (target ++ rest)) : Walks t n (links + 1) cur (part :: rest)

theorem Walks.walk (h : Walks t n links cur route) : t.walk links cur route = some n := by
  induction h with
  | done links => exact walk_nil
  | step links cur i part rest hmove hrest ih => rw [walk_node hmove, ih]
  | link links cur start part rest target hmove hrest ih => rw [walk_link hmove, ih]

/-- Each part uses up the route, each link one of the links. -/
theorem walks_of_walk {links cur : ℕ} {route : List (RoutePart N)}
    (h : t.walk links cur route = some n) : Walks t n links cur route := by
  match route with
  | [] =>
    obtain rfl := Option.some.inj (walk_nil.symm.trans h)
    exact .done links
  | part :: rest =>
    cases hmove : t.move cur part with
    | none =>
      rw [walk_blocked hmove] at h
      contradiction
    | some moved =>
      cases moved with
      | node i =>
        rw [walk_node hmove] at h
        exact .step links cur i part rest hmove (walks_of_walk h)
      | link start target =>
        cases links with
        | zero =>
          simp only [Tree.walk, Tree.steps, hmove] at h
          contradiction
        | succ links =>
          rw [walk_link hmove] at h
          exact .link links cur start part rest target hmove (walks_of_walk h)
termination_by (links, route.length)

theorem walk_iff : t.walk links cur route = some n ↔ Walks t n links cur route :=
  ⟨walks_of_walk, Walks.walk⟩

/-- A walk passes the end of the first half of its route. -/
theorem walk_append (h : t.walk links cur (front ++ rest) = some n) :
    ∃ m k, t.walk links cur front = some m ∧ t.walk k m rest = some n := by
  rw [walk_iff] at h
  generalize hroute : front ++ rest = route at h
  induction h generalizing front with
  | done links =>
    obtain ⟨rfl, rfl⟩ := List.append_eq_nil_iff.mp hroute
    exact ⟨n, links, walk_nil, walk_nil⟩
  | step links cur i part after hmove hrest ih =>
    cases front with
    | nil =>
      obtain rfl : rest = part :: after := hroute
      exact ⟨cur, links, walk_nil, (walk_node hmove).trans hrest.walk⟩
    | cons first front =>
      obtain ⟨rfl, rfl⟩ := List.cons.inj hroute
      obtain ⟨m, k, hfront, hend⟩ := ih rfl
      exact ⟨m, k, (walk_node hmove).trans hfront, hend⟩
  | link links cur start part after target hmove hrest ih =>
    cases front with
    | nil =>
      obtain rfl : rest = part :: after := hroute
      exact ⟨cur, links + 1, walk_nil, (walk_link hmove).trans hrest.walk⟩
    | cons first front =>
      obtain ⟨rfl, rfl⟩ := List.cons.inj hroute
      obtain ⟨m, k, hfront, hend⟩ := ih (List.append_assoc ..)
      exact ⟨m, k, (walk_link hmove).trans hfront, hend⟩

/-- A second half that needs no links goes on from the end of the first. -/
theorem walk_then {m : ℕ} (hfront : t.walk links cur front = some m)
    (hrest : ∀ k, t.walk k m rest = some n) : t.walk links cur (front ++ rest) = some n := by
  rw [walk_iff] at hfront
  induction hfront with
  | done links => exact hrest links
  | step links cur i part after hmove _ ih => exact (walk_node hmove).trans ih
  | link links cur start part after target hmove _ ih =>
    rw [List.append_assoc] at ih
    exact (walk_link hmove).trans ih

/-- A part is walked only from a directory. -/
theorem isDirectory_of_move {part : RoutePart N} {moved : Move N}
    (h : t.move cur part = some moved) : t.IsDirectory cur := by
  unfold Tree.move at h
  split at h
  · exact ⟨_, _, _, ‹_›⟩
  · contradiction

theorem isDirectory_of_walk {part : RoutePart N}
    (h : t.walk links cur (part :: rest) = some n) : t.IsDirectory cur := by
  rw [walk_iff] at h
  cases h with
  | step _ _ i _ _ hmove _ => exact isDirectory_of_move hmove
  | link _ _ start _ _ target hmove _ => exact isDirectory_of_move hmove

theorem move_here (h : t.IsDirectory cur) : t.move cur .here = some (.node cur) := by
  obtain ⟨attr, parent, entries, hnode⟩ := h
  simp only [Tree.move, hnode]

theorem walk_here (h : t.IsDirectory cur) (k : ℕ) :
    t.walk links cur (List.replicate k .here) = some cur := by
  induction k with
  | zero => exact walk_nil
  | succ k ih => rw [List.replicate_succ, walk_node (move_here h), ih]

theorem walk_mono (hmove : ∀ cur part moved, t.move cur part = some moved →
      t'.move cur part = some moved) (h : t.walk links cur route = some n) :
    t'.walk links cur route = some n := by
  rw [walk_iff] at h
  induction h with
  | done links => exact walk_nil
  | step links cur i part rest hpart _ ih => exact (walk_node (hmove _ _ _ hpart)).trans ih
  | link links cur start part rest target hpart _ ih =>
    exact (walk_link (hmove _ _ _ hpart)).trans ih

end Walks

section NewDirectories

variable [DecidableEq N]

/-- A new empty directory, under a name that the directory `d` does not have yet. -/
def Tree.addDirectory (t : Tree N D F) (attr : D) (d : ℕ) (dattr : D) (parent : ℕ)
    (entries : N → Option ℕ) (name : N) : Tree N D F :=
  { t with nodes :=
      t.nodes.set d (.directory dattr parent (Function.update entries name t.nodes.length)) ++
        [.directory attr d fun _ => none] }

/-- A name that is there is kept, also that of a link that leads nowhere. -/
def Tree.mkdir (t : Tree N D F) (attr : D) (start : ℕ) (front : List (RoutePart N)) (name : N) :
    Option (Tree N D F) :=
  match t.walk t.links start front with
  | none => none
  | some d =>
    match t.nodes[d]? with
    | some (.directory dattr parent entries) =>
      match entries name with
      | some _ => none
      | none => some (t.addDirectory attr d dattr parent entries name)
    | _ => none

variable {t t' : Tree N D F} {attr : D} {start : ℕ} {front : List (RoutePart N)} {name : N}

/-- What there is when a directory can be made. -/
structure Room (t : Tree N D F) (start : ℕ) (front : List (RoutePart N)) (name : N) (d : ℕ)
    (dattr : D) (parent : ℕ) (entries : N → Option ℕ) : Prop where
  front : t.walk t.links start front = some d
  node : t.nodes[d]? = some (.directory dattr parent entries)
  free : entries name = none

theorem mkdir_eq_some (h : t.mkdir attr start front name = some t') :
    ∃ d dattr parent entries, Room t start front name d dattr parent entries ∧
      t' = t.addDirectory attr d dattr parent entries name := by
  unfold Tree.mkdir at h
  split at h
  · contradiction
  · rename_i d hfront
    split at h
    · rename_i dattr parent entries hnode
      split at h
      · contradiction
      · rename_i hfree
        obtain rfl := Option.some.inj h
        exact ⟨d, dattr, parent, entries, ⟨hfront, hnode, hfree⟩, rfl⟩
    · contradiction

section Added

variable {d : ℕ} {dattr : D} {parent : ℕ} {entries : N → Option ℕ}

theorem nodes_addDirectory_old {i : ℕ} {node : Node N D F} (hi : t.nodes[i]? = some node)
    (hne : i ≠ d) :
    (t.addDirectory attr d dattr parent entries name).nodes[i]? = some node := by
  have hlt : i < t.nodes.length := (List.getElem?_eq_some_iff.mp hi).1
  rw [Tree.addDirectory, List.getElem?_append_left (by simpa using hlt),
    List.getElem?_set_ne (Ne.symm hne), hi]

theorem nodes_addDirectory_self (hnode : t.nodes[d]? = some (.directory dattr parent entries)) :
    (t.addDirectory attr d dattr parent entries name).nodes[d]? =
      some (.directory dattr parent (Function.update entries name t.nodes.length)) := by
  have hlt : d < t.nodes.length := (List.getElem?_eq_some_iff.mp hnode).1
  rw [Tree.addDirectory, List.getElem?_append_left (by simpa using hlt),
    List.getElem?_set_self hlt]

theorem nodes_addDirectory_new :
    (t.addDirectory attr d dattr parent entries name).nodes[t.nodes.length]? =
      some (.directory attr d fun _ => none) := by
  rw [Tree.addDirectory, List.getElem?_append_right (by simp)]
  simp

/-- The directory itself is the only node that changes, and it stays a directory. -/
theorem nodes_addDirectory (attr : D) (name : N)
    (hnode : t.nodes[d]? = some (.directory dattr parent entries)) {i : ℕ} {node : Node N D F}
    (hi : t.nodes[i]? = some node) :
    (t.addDirectory attr d dattr parent entries name).nodes[i]? = some node ∨
      (i = d ∧ node = .directory dattr parent entries) := by
  obtain rfl | hne := eq_or_ne i d
  · exact .inr ⟨rfl, Option.some.inj (hi.symm.trans hnode)⟩
  · exact .inl (nodes_addDirectory_old hi hne)

theorem enter_addDirectory (hnode : t.nodes[d]? = some (.directory dattr parent entries))
    {cur : ℕ} {entry : Option ℕ} {moved : Move N} (h : t.enter cur entry = some moved) :
    (t.addDirectory attr d dattr parent entries name).enter cur entry = some moved := by
  cases entry with
  | none => contradiction
  | some i =>
    simp only [Tree.enter] at h ⊢
    cases hi : t.nodes[i]? with
    | none =>
      rw [hi] at h
      contradiction
    | some node =>
      rw [hi] at h
      obtain hsame | ⟨rfl, rfl⟩ := nodes_addDirectory attr name hnode hi
      · rw [hsame]
        exact h
      · rw [nodes_addDirectory_self hnode]
        exact h

theorem move_addDirectory (hnode : t.nodes[d]? = some (.directory dattr parent entries))
    (hfree : entries name = none) {cur : ℕ} {part : RoutePart N} {moved : Move N}
    (h : t.move cur part = some moved) :
    (t.addDirectory attr d dattr parent entries name).move cur part = some moved := by
  unfold Tree.move at h ⊢
  cases hcur : t.nodes[cur]? with
  | none =>
    rw [hcur] at h
    contradiction
  | some node =>
    rw [hcur] at h
    obtain hsame | ⟨rfl, rfl⟩ := nodes_addDirectory attr name hnode hcur
    · rw [hsame]
      cases node with
      | directory attr' parent' entries' =>
        cases part with
        | here => exact h
        | up => exact h
        | down other => exact enter_addDirectory hnode h
      | symlink rooted target => contradiction
      | other content => contradiction
    · rw [nodes_addDirectory_self hnode]
      cases part with
      | here => exact h
      | up => exact h
      | down other =>
        have hne : other ≠ name := by
          rintro rfl
          simp only [hfree, Tree.enter] at h
          contradiction
        simp only [Function.update_of_ne hne]
        exact enter_addDirectory hnode h

end Added

/-- Every walk that has got to its end still does. -/
theorem mkdir_walk (h : t.mkdir attr start front name = some t') {links cur n : ℕ}
    {route : List (RoutePart N)} (hwalk : t.walk links cur route = some n) :
    t'.walk links cur route = some n := by
  obtain ⟨d, dattr, parent, entries, hroom, rfl⟩ := mkdir_eq_some h
  exact walk_mono (fun _ _ _ hmove => move_addDirectory hroom.node hroom.free hmove) hwalk

theorem mkdir_root (h : t.mkdir attr start front name = some t') : t'.root = t.root := by
  obtain ⟨d, dattr, parent, entries, hroom, rfl⟩ := mkdir_eq_some h
  rfl

theorem mkdir_links (h : t.mkdir attr start front name = some t') : t'.links = t.links := by
  obtain ⟨d, dattr, parent, entries, hroom, rfl⟩ := mkdir_eq_some h
  rfl

/-- A directory is made only in a directory. -/
theorem mkdir_parent (h : t.mkdir attr start front name = some t') :
    ∃ d, t.walk t.links start front = some d ∧ t.IsDirectory d := by
  obtain ⟨d, dattr, parent, entries, hroom, rfl⟩ := mkdir_eq_some h
  exact ⟨d, hroom.front, dattr, parent, entries, hroom.node⟩

/-- No walk went by the name before. -/
theorem mkdir_missing (h : t.mkdir attr start front name = some t') (rest : List (RoutePart N)) :
    t.walk t.links start (front ++ .down name :: rest) = none := by
  obtain ⟨d, dattr, parent, entries, hroom, rfl⟩ := mkdir_eq_some h
  by_contra hsome
  obtain ⟨n, hwalk⟩ := Option.ne_none_iff_exists'.mp hsome
  obtain ⟨m, k, hfront, hrest⟩ := walk_append hwalk
  obtain rfl : d = m := Option.some.inj (hroom.front.symm.trans hfront)
  have hmove : t.move d (.down name) = none := by
    simp only [Tree.move, hroom.node, hroom.free, Tree.enter]
  rw [walk_iff] at hrest
  cases hrest with
  | step _ _ i _ _ hto _ => rw [hmove] at hto; contradiction
  | link _ _ other _ _ target hlink _ => rw [hmove] at hlink; contradiction

/-- The new directory goes by its name, and by any number of parts that stay there. -/
theorem mkdir_made (h : t.mkdir attr start front name = some t') (k : ℕ) :
    ∃ n, t'.walk t'.links start (front ++ .down name :: List.replicate k .here) = some n ∧
      t'.IsDirectory n := by
  obtain ⟨d, dattr, parent, entries, hroom, hadded⟩ := mkdir_eq_some h
  have hnew : t'.nodes[t.nodes.length]? = some (.directory attr d fun _ => none) := by
    rw [hadded]
    exact nodes_addDirectory_new
  have hdirectory : t'.IsDirectory t.nodes.length := ⟨attr, d, _, hnew⟩
  have hmove : t'.move d (.down name) = some (.node t.nodes.length) := by
    have hself : t'.nodes[d]? =
        some (.directory dattr parent (Function.update entries name t.nodes.length)) := by
      rw [hadded]
      exact nodes_addDirectory_self hroom.node
    simp only [Tree.move, hself, Function.update_self, Tree.enter, hnew]
  refine ⟨t.nodes.length, ?_, hdirectory⟩
  rw [mkdir_links h]
  refine walk_then (mkdir_walk h hroom.front) fun links => ?_
  rw [walk_node hmove]
  exact walk_here hdirectory k

end NewDirectories
end Gingko.DirectoryTrees
