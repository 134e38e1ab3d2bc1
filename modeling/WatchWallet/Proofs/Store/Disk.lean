import WatchWallet.Proofs.Except
import WatchWallet.Store.Disk

/-!
# Store — Disk

What stands at each path after a change, which names a directory lists (`mem_list`), and what becomes of
a write when no change fails (`write_eq`).
-/

namespace WatchWallet.Disk

variable {d : Disk} {p q : Path} {n : Node}

@[simp] theorem node?_nil (d : Disk) : d.node? [] = some .directory :=
  if_pos rfl

theorem node?_of_ne (hq : q ≠ []) : d.node? q = d.nodes.lookup q :=
  if_neg hq

theorem lookup_filter {nodes : List (Path × Node)} (h : q ≠ p) :
    (nodes.filter (·.1 != p)).lookup q = nodes.lookup q := by
  induction nodes with
  | nil => rfl
  | cons x xs ih =>
      by_cases hx : x.1 = p
      · rw [List.filter_cons_of_neg (by simpa using hx), ih, List.lookup_cons]
        have hne : (q == x.1) = false := by simpa [hx] using h
        rw [hne]
      · rw [List.filter_cons_of_pos (by simpa using hx), List.lookup_cons, List.lookup_cons, ih]

/-- What is put at a path stands there, and nothing else changes. -/
theorem node?_put (hp : p ≠ []) : (d.put p n).node? q = if q = p then some n else d.node? q := by
  by_cases hq : q = p
  · subst hq
    rw [if_pos rfl, node?_of_ne hp, put, List.lookup_cons_self]
  · rw [if_neg hq]
    by_cases hnil : q = []
    · rw [hnil, node?_nil, node?_nil]
    · have hne : (q == p) = false := by simpa using hq
      rw [node?_of_ne hnil, node?_of_ne hnil, put, List.lookup_cons, hne]
      exact lookup_filter hq

theorem node?_ne_none_of_mem (h : (p, n) ∈ d.nodes) : d.node? p ≠ none := by
  by_cases hp : p = []
  · rw [hp, node?_nil]
    exact Option.some_ne_none _
  · rw [node?_of_ne hp]
    intro hnone
    have hne := List.lookup_eq_none_iff.1 hnone (p, n) h
    simp at hne

theorem exists_mem_of_node? (hp : p ≠ []) (h : d.node? p ≠ none) : ∃ n, (p, n) ∈ d.nodes := by
  rw [node?_of_ne hp] at h
  obtain ⟨n, hn⟩ := Option.ne_none_iff_exists'.1 h
  obtain ⟨l₁, l₂, hnodes, -⟩ := List.lookup_eq_some_iff.1 hn
  exact ⟨n, hnodes ▸ by simp⟩

theorem mem_nodes_put {m : Node} (h : (q, m) ∈ (d.put p n).nodes) :
    q = p ∧ m = n ∨ (q, m) ∈ d.nodes := by
  rcases List.mem_cons.1 h with h | h
  · exact .inl (Prod.mk.inj h)
  · exact .inr (List.mem_filter.1 h).1

/-- The directory at a path and those that lead to it are there. -/
def HasDirectory (d : Disk) (p : Path) : Prop :=
  ∀ q ∈ ancestors p, d.node? q = some .directory

theorem mem_ancestors_self (p : Path) : p ∈ ancestors p :=
  List.mem_map.2 ⟨p.length, List.mem_range.2 (Nat.lt_succ_self _), List.take_length⟩

theorem HasDirectory.node? (h : d.HasDirectory p) : d.node? p = some .directory :=
  h p (mem_ancestors_self p)

/-- A directory that is there need not be made. -/
theorem createDirectories_eq (h : d.HasDirectory p) : d.createDirectories p = .ok d := by
  unfold createDirectories
  unfold HasDirectory at h
  generalize ancestors p = paths at h
  induction paths with
  | nil => rfl
  | cons q qs ih =>
      rw [List.foldlM_cons, createDirectory, h q List.mem_cons_self]
      exact ih fun q' hq' => h q' (List.mem_cons_of_mem q hq')

/-- A directory is there already, or it is put where nothing is. -/
theorem createDirectory_cases {d' : Disk} (h : d.createDirectory p = .ok d') :
    d.node? p = some .directory ∧ d' = d ∨ p ≠ [] ∧ d' = d.put p .directory := by
  unfold createDirectory at h
  split at h
  · rename_i hp
    cases h
    exact .inl ⟨hp, rfl⟩
  · cases h
  · rename_i hnone
    cases h
    refine .inr ⟨?_, rfl⟩
    rintro rfl
    cases (node?_nil d).symm.trans hnone

/-- A directory is made where it is missing, and nothing else changes. -/
theorem createDirectory_ok {d' : Disk} (h : d.createDirectory p = .ok d') :
    d'.outcomes = d.outcomes ∧ d'.node? p = some .directory ∧
      (∀ q, d.node? q = some .directory → d'.node? q = some .directory) ∧
      ∀ q n, (q, n) ∈ d'.nodes → q = p ∨ (q, n) ∈ d.nodes := by
  rcases createDirectory_cases h with ⟨hp, rfl⟩ | ⟨hne, rfl⟩
  · exact ⟨rfl, hp, fun _ hq => hq, fun _ _ hn => .inr hn⟩
  · refine ⟨rfl, by rw [node?_put hne, if_pos rfl], fun q hq => ?_, fun q n hn => ?_⟩
    · rw [node?_put hne]
      split
      · rfl
      · exact hq
    · exact (mem_nodes_put hn).imp_left (·.1)

theorem foldlM_createDirectory_ok {paths : List Path} {d' : Disk}
    (h : paths.foldlM createDirectory d = .ok d') : d'.outcomes = d.outcomes ∧
      (∀ q, q ∈ paths ∨ d.node? q = some .directory → d'.node? q = some .directory) ∧
      ∀ q n, (q, n) ∈ d'.nodes → q ∈ paths ∨ (q, n) ∈ d.nodes := by
  induction paths generalizing d with
  | nil =>
      cases h
      exact ⟨rfl, fun q hq => hq.resolve_left List.not_mem_nil, fun _ _ hn => .inr hn⟩
  | cons p ps ih =>
      rw [List.foldlM_cons] at h
      obtain ⟨d₁, hp, hps⟩ := Except.bind_eq_ok.1 h
      obtain ⟨houtcomes₁, hmade, hkept, hmem₁⟩ := createDirectory_ok hp
      obtain ⟨houtcomes, hdir, hmem⟩ := ih hps
      refine ⟨houtcomes.trans houtcomes₁, fun q hq => hdir q ?_, fun q n hn => ?_⟩
      · rcases hq with hq | hq
        · rcases List.mem_cons.1 hq with rfl | hq
          · exact .inr hmade
          · exact .inl hq
        · exact .inr (hkept q hq)
      · rcases hmem q n hn with hq | hn
        · exact .inl (List.mem_cons_of_mem p hq)
        · rcases hmem₁ q n hn with rfl | hn
          · exact .inl List.mem_cons_self
          · exact .inr hn

/-- The directories that lead to a path are made, and nothing else changes. -/
theorem createDirectories_ok {d' : Disk} (h : d.createDirectories p = .ok d') :
    d'.outcomes = d.outcomes ∧ d'.HasDirectory p ∧
      ∀ q n, (q, n) ∈ d'.nodes → q ∈ ancestors p ∨ (q, n) ∈ d.nodes := by
  obtain ⟨houtcomes, hdir, hmem⟩ := foldlM_createDirectory_ok h
  exact ⟨houtcomes, fun q hq => hdir q (.inl hq), hmem⟩

/-- Something put where no way to a directory leads leaves the directory there. -/
theorem HasDirectory.put (h : d.HasDirectory p) (hq : q ≠ []) (hfile : q ∉ ancestors p) :
    (d.put q n).HasDirectory p := by
  intro r hr
  have hne : r ≠ q := by
    rintro rfl
    exact hfile hr
  rw [node?_put hq, if_neg hne]
  exact h r hr

/-- A path that goes on from another leads not to it. -/
theorem append_not_mem_ancestors (p : Path) (name : String) : p ++ [name] ∉ ancestors p := by
  intro h
  obtain ⟨k, -, hk⟩ := List.mem_map.1 h
  have hlength := congrArg List.length hk
  rw [List.length_take, List.length_append, List.length_singleton] at hlength
  omega

/-- The names that a directory lists. -/
theorem mem_list (h : d.node? p = some .directory) : ∃ names, d.list p = .ok names ∧
    ∀ name, name ∈ names ↔ ∃ n, (p ++ [name], n) ∈ d.nodes := by
  unfold list
  rw [h]
  refine ⟨_, rfl, fun name => ?_⟩
  rw [List.mem_mergeSort, List.mem_filterMap]
  constructor
  · rintro ⟨x, hx, hname⟩
    dsimp only at hname
    split at hname
    · rename_i hpath
      obtain ⟨l, hl⟩ := List.getLast?_eq_some_iff.1 hname
      rw [hl, List.dropLast_concat] at hpath
      obtain rfl := hpath.2
      exact ⟨x.2, hl ▸ hx⟩
    · cases hname
  · rintro ⟨n, hn⟩
    refine ⟨_, hn, ?_⟩
    dsimp only
    rw [if_pos ⟨List.append_ne_nil_of_right_ne_nil _ (List.cons_ne_nil _ _), List.dropLast_concat⟩,
      List.getLast?_concat]

/-- A write to a place for a file is done when no change fails. -/
theorem write_eq {content : Bytes} (hdone : d.outcomes = [])
    (hdir : d.node? p.dropLast = some .directory) (hp : d.node? p ≠ some .directory) :
    d.write p content = (.ok (), d.put p (.file content)) := by
  have hparent : d.parentError? p = none := by
    unfold parentError?
    rw [hdir]
  unfold write nextOutcome
  rw [hparent, hdone]
  split
  · rename_i h
    cases h
  · rename_i h
    exact absurd h hp
  · rfl

end WatchWallet.Disk
