import ChannelEmulator.Proof.HttpCleanPath

/-!
# Confinement of the web server to its roots

* `below_append_iff`: where a cleaned path leads that is put behind a root.
* `confined_iff`: **a request opens files in or below its root only** just when what is put behind the
  root starts a segment of its own, and climbs no higher than it comes back.
-/

namespace ChannelEmulator.Http

open Paths

/-! ## Segments -/

theorem segments_append (a b : Bytes) : segments (a ++ slash :: b) = segments a ++ segments b :=
  List.splitOn_append_cons_self a b

theorem segments_single {u : Bytes} (h : slash ∉ u) : segments u = [u] :=
  List.splitOn_eq_singleton h

theorem components_append (a b : Bytes) :
    components (a ++ slash :: b) = components a ++ components b := by
  rw [components, segments_append, List.map_append]
  rfl

/-- The first segment of a path, with what is behind it. -/
theorem exists_first_segment (u : Bytes) : ∃ s v, u = s ++ v ∧ slash ∉ s ∧
    (v = [] ∨ ∃ t, v = slash :: t) := by
  by_cases hmem : slash ∈ u
  · obtain ⟨s, t, heq, hnot⟩ := List.eq_append_cons_of_mem hmem
    exact ⟨s, slash :: t, heq, hnot, .inr ⟨t, rfl⟩⟩
  · exact ⟨u, [], (List.append_nil u).symm, hmem, .inl rfl⟩

/-- The last segment of a path, with the slash before it. -/
theorem exists_last_segment (u : Bytes) : ∃ before name, u = before ++ name ∧ slash ∉ name ∧
    (before = [] ∨ before.getLast? = some slash) ∧
    ∃ front, ∀ v, segments (before ++ v) = front ++ segments v := by
  by_cases hmem : slash ∈ u
  · obtain ⟨as, bs, heq, hnot⟩ := List.eq_append_cons_of_mem (List.mem_reverse.2 hmem)
    refine ⟨bs.reverse ++ [slash], as.reverse, ?_, by simpa using hnot,
      .inr List.getLast?_concat, segments bs.reverse, ?_⟩
    · rw [← List.reverse_reverse u, heq]
      simp
    · intro v
      rw [List.append_assoc, List.singleton_append, segments_append]
  · exact ⟨[], u, rfl, hmem, .inl rfl, [], fun v => rfl⟩

/-! ## Paths without dots -/

theorem slashDots_append {a u : Bytes} (h : slashDots (a ++ u) = false) : slashDots u = false := by
  induction a with
  | nil => exact h
  | cons b a ih =>
    rw [List.cons_append, slashDots, Bool.or_eq_false_iff] at h
    exact ih h.2

theorem slashDots_slash {u : Bytes} (h : slashDots (slash :: u) = false) :
    dots u = false ∧ slashDots u = false := by
  rw [slashDots, Bool.or_eq_false_iff, beq_self_eq_true, Bool.true_and] at h
  exact h

/-- No segment behind a slash leads up. -/
theorem no_up {u : Bytes} (hd : dots u = false) (hs : slashDots u = false) :
    ∀ c ∈ components u, c ≠ .up := by
  have hfirst : ∀ s v : Bytes, dots (s ++ v) = false → (v = [] ∨ ∃ t, v = slash :: t) →
      component s ≠ .up := by
    intro s v hd hv hup
    have hs : s = [dot, dot] := by
      unfold component at hup
      split at hup
      · cases hup
      · split at hup
        · assumption
        · cases hup
    subst hs
    rcases hv with rfl | ⟨t, rfl⟩
    · exact absurd hd (by decide)
    · simp [dots, dot, slash] at hd
  induction hn : u.length using Nat.strong_induction_on generalizing u with
  | _ n ih =>
    obtain ⟨s, v, rfl, hnot, hv⟩ := exists_first_segment u
    have hup := hfirst s v hd hv
    rcases hv with rfl | ⟨t, rfl⟩
    · intro c hc
      rw [List.append_nil, components, segments_single hnot, List.map_singleton,
        List.mem_singleton] at hc
      rwa [hc]
    · obtain ⟨hd', hs'⟩ := slashDots_slash (slashDots_append hs)
      intro c hc
      rw [components_append, List.mem_append, components, segments_single hnot, List.map_singleton,
        List.mem_singleton] at hc
      rcases hc with hc | hc
      · rwa [hc]
      · refine ih t.length ?_ hd' hs' rfl c hc
        rw [← hn, List.length_append, List.length_cons]
        omega

/-! ## What is put behind a root -/

theorem start_append {a : Bytes} (ha : a ≠ []) (cwd : List Bytes) (b : Bytes) :
    start cwd (a ++ b) = start cwd a := by
  obtain ⟨x, u, rfl⟩ := List.exists_cons_of_ne_nil ha
  rfl

/-- A path behind a slash goes on from where the path before it leads. -/
theorem resolve_append {a : Bytes} (ha : a ≠ []) (cwd : List Bytes) (b : Bytes) :
    resolve cwd (a ++ slash :: b) = walk (resolve cwd a) (components b) := by
  rw [resolve, start_append ha, components_append, walk_append]
  rfl

/-- The same behind a root that ends in a slash itself. -/
theorem resolve_append_of_slash {a : Bytes} (ha : a.getLast? = some slash) (cwd : List Bytes)
    (b : Bytes) : resolve cwd (a ++ b) = walk (resolve cwd a) (components b) := by
  obtain ⟨u, rfl⟩ := List.getLast?_eq_some_iff.1 ha
  have hne : u ++ [slash] ≠ [] := by simp
  have hsame : walk (start cwd (u ++ [slash])) (components (u ++ [slash])) =
      walk (start cwd (u ++ [slash])) (components u) := by
    rw [components_append, walk_append]
    rfl
  rw [resolve, start_append hne, resolve, hsame, List.append_assoc, List.singleton_append,
    components_append, walk_append]

theorem component_name {s : Bytes} (hne : s ≠ []) (hdot : s ≠ [dot]) (hdots : s ≠ [dot, dot]) :
    component s = .name s := by
  rw [component, if_neg (not_or.2 ⟨hne, hdot⟩), if_neg hdots]

/-- A name with more octets is a name still. -/
theorem component_append {s t : Bytes} (hs : s ≠ []) (ht : t ≠ []) (hdot : s ≠ [dot]) :
    component (s ++ t) = .name (s ++ t) := by
  obtain ⟨a, s, rfl⟩ := List.exists_cons_of_ne_nil hs
  obtain ⟨b, t, rfl⟩ := List.exists_cons_of_ne_nil ht
  refine component_name (by simp) (by simp) ?_
  intro h
  rw [List.cons_append] at h
  obtain ⟨rfl, h⟩ := List.cons.inj h
  cases s with
  | nil => exact hdot rfl
  | cons c s => simp at h

/-- What is put right behind the name of a root makes another name of it. -/
theorem not_below_glued (r : Root) (cwd : List Bytes) {t : Bytes} (hdots : slashDots t = false)
    (ht : t ≠ []) (hhead : t.head? ≠ some slash) (hlast : r.path.getLast? ≠ some slash) :
    ¬Below cwd r (r.path ++ t) := by
  obtain ⟨before, name, hr, hname, hbefore, front, hfront⟩ := exists_last_segment r.path
  obtain ⟨s, v, rfl, hnot, hv⟩ := exists_first_segment t
  have hsegs : segments r.path = front ++ [name] := by rw [hr, hfront, segments_single hname]
  have hne : name ≠ [] := by
    rintro rfl
    rw [List.append_nil] at hr
    rcases hbefore with rfl | hbefore
    · exact r.nonempty hr
    · exact hlast (hr ▸ hbefore)
  have hs : s ≠ [] := by
    rintro rfl
    rcases hv with rfl | ⟨t, rfl⟩
    · exact ht rfl
    · exact hhead rfl
  obtain ⟨hdot, hdotdot⟩ := r.named
  rw [hsegs, List.getLast?_concat] at hdot hdotdot
  have hroot : component name = .name name :=
    component_name hne (fun h => hdot (congrArg some h)) (fun h => hdotdot (congrArg some h))
  have hother : component (name ++ s) = .name (name ++ s) :=
    component_append hne hs (fun h => hdot (congrArg some h))
  -- the segments of the root but its last, then the longer name, then what does not lead up
  have hpath : ∃ rest, components (r.path ++ (s ++ v)) =
      front.map component ++ .name (name ++ s) :: rest ∧ ∀ c ∈ rest, c ≠ .up := by
    have hglued : slash ∉ name ++ s := by simp [hname, hnot]
    rcases hv with rfl | ⟨t, rfl⟩
    · refine ⟨[], ?_, by simp⟩
      rw [List.append_nil, hr, List.append_assoc, components, hfront, segments_single hglued,
        List.map_append, List.map_singleton, hother]
    · obtain ⟨hd', hs'⟩ := slashDots_slash (slashDots_append hdots)
      refine ⟨components t, ?_, no_up hd' hs'⟩
      rw [hr, List.append_assoc, ← List.append_assoc name, components, hfront, segments_append,
        segments_single hglued, List.map_append, List.map_append, List.map_singleton, hother]
      rfl
  obtain ⟨rest, hrest, hup⟩ := hpath
  have hin : resolve cwd r.path = walk (start cwd r.path) (front.map component) ++ [name] := by
    rw [resolve, components, hsegs, List.map_append, List.map_singleton, hroot, walk_append]
    rfl
  rw [Below, hin, resolve, start_append r.nonempty, hrest, walk_append]
  refine not_prefix_walk_name ?_ hup
  intro h
  exact hs (List.append_right_eq_self.1 h.symm)

theorem below_slash (r : Root) (cwd : List Bytes) {t : Bytes} (hdots : slashDots (slash :: t) = false) :
    Below cwd r (r.path ++ slash :: t) := by
  obtain ⟨hd, hs⟩ := slashDots_slash hdots
  rw [Below, resolve_append r.nonempty]
  exact prefix_walk_of_no_up (no_up hd hs)

/-- What is put behind a root stays below it: it starts a segment of its own, and names again what it
climbs. -/
def StaysIn (cwd : List Bytes) (r : Root) (t : Bytes) : Prop :=
  t = [] ∨ t.head? = some slash ∨
    (r.path.getLast? = some slash ∧ Returns (resolve cwd r.path) (components t))

/-- **Where a cleaned path leads** that is put behind a root. -/
theorem below_append_iff (r : Root) (cwd : List Bytes) {t : Bytes} (hdots : slashDots t = false) :
    Below cwd r (r.path ++ t) ↔ StaysIn cwd r t := by
  have hslash : r.path.getLast? = some slash →
      (Below cwd r (r.path ++ t) ↔ Returns (resolve cwd r.path) (components t)) := by
    intro hlast
    rw [Below, resolve_append_of_slash hlast, prefix_walk_iff]
  constructor
  · intro h
    by_cases ht : t = []
    · exact .inl ht
    by_cases hhead : t.head? = some slash
    · exact .inr (.inl hhead)
    by_cases hlast : r.path.getLast? = some slash
    · exact .inr (.inr ⟨hlast, (hslash hlast).1 h⟩)
    · exact absurd h (not_below_glued r cwd hdots ht hhead hlast)
  · rintro (rfl | hhead | ⟨hlast, h⟩)
    · rw [List.append_nil]
      exact List.prefix_rfl
    · obtain ⟨t, rfl⟩ := List.head?_eq_some_iff.1 hhead
      exact below_slash r cwd hdots
    · exact (hslash hlast).2 h

/-! ## Requests -/

/-- Every file that a request opens lies in or below the root chosen for it, whatever is in the file
system. -/
def Confined (w : WebPaths) (cwd : List Bytes) (req : Request) : Prop :=
  ∀ fs, ∃ files, handleRequest w fs req = .ok files ∧ ∀ f ∈ files, Below cwd f.root f.file

/-- What a request has put behind its root stays in it. -/
def Stays (w : WebPaths) (cwd : List Bytes) : Request → Prop
  | .get requestURI => ∀ reqPath, cleanPath (cStr requestURI) = .ok reqPath →
      StaysIn cwd (chooseRoot w reqPath).1 (chooseRoot w reqPath).2.1
  | .upload parts => ∀ r, uploadRoot w (readParts parts) = some r →
      Returns (resolve cwd r.path) (components (cStr (readParts parts).filename))

theorem chooseRoot_drop (w : WebPaths) (reqPath : Bytes) :
    ∃ n, (chooseRoot w reqPath).2.1 = reqPath.drop n := by
  unfold chooseRoot
  split
  · exact ⟨_, rfl⟩
  · split
    · exact ⟨_, rfl⟩
    · exact ⟨0, rfl⟩

/-- An index file lies where its directory does. -/
theorem below_index {cwd : List Bytes} {r : Root} {file name : Bytes} (h : Below cwd r file)
    (hne : file ≠ []) (hname : components name = [.name name]) :
    Below cwd r (file ++ slash :: name) := by
  rw [Below, resolve_append hne, hname]
  exact h.trans (List.prefix_append _ _)

/-- What `_handleGet` opens of a root: the file, or an index file in it. -/
theorem handleGet_ok (w : WebPaths) (fs : FileSystem) {requestURI reqPath : Bytes}
    (hclean : cleanPath (cStr requestURI) = .ok reqPath) :
    ∃ files, handleGet w fs requestURI = .ok files ∧ ∀ f ∈ files, f.root = (chooseRoot w reqPath).1 ∧
      (f.file = f.root.path ++ (chooseRoot w reqPath).2.1 ∨ ∃ name, components name = [.name name] ∧
        f.file = f.root.path ++ (chooseRoot w reqPath).2.1 ++ slash :: name) := by
  unfold handleGet
  rw [hclean]
  simp only [bind, Except.bind]
  split
  · exact ⟨[], rfl, by simp⟩
  split
  · exact ⟨_, rfl, by simp⟩
  split
  · exact ⟨_, rfl, by simp⟩
  split
  · refine ⟨_, rfl, fun f hf => ?_⟩
    obtain rfl := List.mem_singleton.1 hf
    exact ⟨rfl, .inr ⟨ascii "index.html", by decide, rfl⟩⟩
  split
  · refine ⟨_, rfl, fun f hf => ?_⟩
    obtain rfl := List.mem_singleton.1 hf
    exact ⟨rfl, .inr ⟨ascii "index.htm", by decide, rfl⟩⟩
  · exact ⟨[], rfl, by simp⟩

/-- A file that is there is opened. -/
theorem handleGet_file (w : WebPaths) {fs : FileSystem} {requestURI reqPath : Bytes}
    (hclean : cleanPath (cStr requestURI) = .ok reqPath)
    (hroot : fs (chooseRoot w reqPath).1.path = some .directory)
    (hfile : fs ((chooseRoot w reqPath).1.path ++ (chooseRoot w reqPath).2.1) = some .other) :
    handleGet w fs requestURI = .ok [⟨(chooseRoot w reqPath).1,
      (chooseRoot w reqPath).1.path ++ (chooseRoot w reqPath).2.1⟩] := by
  unfold handleGet
  rw [hclean]
  simp only [bind, Except.bind]
  rw [if_neg (not_not.2 hroot), if_pos hfile]
  rfl

theorem confined_get_iff (w : WebPaths) (cwd : List Bytes) (requestURI : Bytes) :
    Confined w cwd (.get requestURI) ↔ Stays w cwd (.get requestURI) := by
  obtain ⟨reqPath, hclean, hdots⟩ := cleanPath_ok (cStr requestURI)
  obtain ⟨n, hn⟩ := chooseRoot_drop w reqPath
  have hrest : slashDots (chooseRoot w reqPath).2.1 = false := by
    rw [hn]
    exact slashDots_append (a := reqPath.take n) (by rwa [List.take_append_drop])
  have hiff := below_append_iff (chooseRoot w reqPath).1 cwd hrest
  constructor
  · intro h path hpath
    rw [hclean] at hpath
    obtain rfl := Except.ok.inj hpath
    by_cases ht : (chooseRoot w reqPath).2.1 = []
    · exact .inl ht
    · -- a file system that has nothing but the root and files
      obtain ⟨files, hfiles, hbelow⟩ := h fun p =>
        if p = (chooseRoot w reqPath).1.path then some .directory else some .other
      rw [handleRequest, handleGet_file w hclean (if_pos rfl)
        (if_neg (fun heq => ht (List.append_right_eq_self.1 heq)))] at hfiles
      obtain rfl := Except.ok.inj hfiles
      exact hiff.1 (hbelow _ (List.mem_singleton_self _))
  · intro h fs
    have hbelow := hiff.2 (h reqPath hclean)
    obtain ⟨files, hfiles, hopened⟩ := handleGet_ok w fs hclean
    refine ⟨files, hfiles, fun f hf => ?_⟩
    obtain ⟨hroot, hfile⟩ := hopened f hf
    rcases hfile with hfile | ⟨name, hname, hfile⟩
    · rwa [hfile, hroot]
    · rw [hfile, hroot]
      exact below_index hbelow (by simp [Root.nonempty]) hname

theorem cStr_append {u v : Bytes} (h : (0 : Octet) ∉ u) : cStr (u ++ v) = u ++ cStr v := by
  refine List.takeWhile_append_of_pos fun b hb => ?_
  simp only [ne_eq, decide_not, Bool.not_eq_eq_eq_not, Bool.not_true, decide_eq_false_iff_not]
  rintro rfl
  exact h hb

/-- An upload goes to a path behind a slash, whatever the name of the file is. -/
theorem below_upload_iff (r : Root) (cwd : List Bytes) (filename : Bytes) :
    Below cwd r (cStr (r.path ++ [slash] ++ filename)) ↔
      Returns (resolve cwd r.path) (components (cStr filename)) := by
  have hnul : (0 : Octet) ∉ r.path ++ [slash] := by
    rw [List.mem_append, not_or]
    exact ⟨r.noNul, by decide⟩
  rw [cStr_append hnul, List.append_assoc, List.singleton_append, Below, resolve_append r.nonempty,
    prefix_walk_iff]

theorem confined_upload_iff (w : WebPaths) (cwd : List Bytes) (parts : List Part) :
    Confined w cwd (.upload parts) ↔ Stays w cwd (.upload parts) := by
  cases hroot : uploadRoot w (readParts parts) with
  | none =>
    -- the upload is refused
    refine iff_of_true (fun fs => ⟨[], ?_, by simp⟩) ?_
    · rw [handleRequest, handleUpload, hroot]
    · intro r hr
      rw [hroot] at hr
      cases hr
  | some root =>
    have hiff := below_upload_iff root cwd (readParts parts).filename
    constructor
    · intro h r hr
      rw [hroot] at hr
      obtain rfl := Option.some.inj hr
      obtain ⟨files, hfiles, hbelow⟩ := h fun _ => none
      rw [handleRequest, handleUpload, hroot] at hfiles
      obtain rfl := Except.ok.inj hfiles
      exact hiff.1 (hbelow _ (List.mem_singleton_self _))
    · intro h fs
      have hbelow := hiff.2 (h root hroot)
      refine ⟨_, rfl, fun f hf => ?_⟩
      rw [handleUpload, hroot] at hf
      simp only at hf
      split at hf
      · cases hf
      · obtain rfl := List.mem_singleton.1 hf
        exact hbelow

/-- **A request opens files in or below its root only** just when what it has put behind the root
stays in it. -/
theorem confined_iff (w : WebPaths) (cwd : List Bytes) (req : Request) :
    Confined w cwd req ↔ Stays w cwd req := by
  cases req with
  | get requestURI => exact confined_get_iff w cwd requestURI
  | upload parts => exact confined_upload_iff w cwd parts

/-- An upload of data under the name of a file above the directory. -/
theorem upload_above : ¬∀ (w : WebPaths) (cwd : List Bytes) (req : Request), Confined w cwd req := by
  intro hall
  have hstays := (confined_upload_iff defaultPaths [] [⟨some (ascii "../x"), ascii "data_upload_name", []⟩]).1
    (hall _ _ _)
  exact absurd (hstays defaultPaths.fileIOPath rfl) (by decide)

/-- With the roots of the source, a document whose path starts in no slash is one of a sibling. -/
example : ¬Confined defaultPaths [] (.get (ascii "-old/passwords")) := by
  rw [confined_get_iff]
  intro h
  exact absurd (h (ascii "-old/passwords") (by decide)) (by unfold StaysIn; decide)

end ChannelEmulator.Http
