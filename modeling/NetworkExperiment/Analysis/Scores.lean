import NetworkExperiment.Lib.Dictionary

namespace NetworkExperiment

open Dictionaries

/-!
# The scores of a platform — `get_adv_score`

* `Directory` — what `glob` and `os.path` say of the matching files;
* `Directory.getFiles` — `get_files`, given the draws of the sample;
* `poolMap` — `multiprocessing.Pool(processes)` and its `map`;
* `Directory.getAdvScore` — `get_adv_score`, one file after the other or with a pool of processes;
* `Directory.Dropped` — what `get_files` leaves out;
* `Directory.ScoredRight` — the dictionary has exactly the files of `get_files`, each with its
  score;
* `scores_right_iff` — without the pool it has for every `parse_file`; with the pool it has if and
  only if the machine has a second CPU, and no file that is dropped comes before one that is not.

Of the pool this takes what its documentation says: it needs at least one process, a `ValueError`
else, and `map` hands every file of the list to some process and returns the results in the order of
the list, whichever process is done first.  A process runs the same `parse_file` as the parent.
`parse_file` returns, and a file that `get_files` yields can be opened.
-/

/-- The files that match, in the order of `glob`, and what `os.path` says of them. -/
structure Directory where
  glob : List String
  nodup : glob.Nodup
  isfile : String → Bool
  getsize : String → ℕ

variable {α : Type*}

/-- `Pool(processes).map(parse_file, files)`: a pool without a process is a `ValueError`, and any
    other one has the results in the order of the files. -/
def poolMap (processes : ℤ) (parseFile : String → α) (files : List String) : Option (List α) :=
  if processes < 1 then none else some (files.map parseFile)

namespace Directory

variable (d : Directory) (sample : Bool) (draws : ℕ → ℕ) (parseFile : String → α)

/-- `is_non_zero_file`. -/
def isNonZeroFile (fpath : String) : Bool := d.isfile fpath && decide (d.getsize fpath > 0)

/-- The loop of `get_files`, at the `i`-th file; a draw is an outcome of `randint(0, 10)`. -/
def filesFrom (i : ℕ) : List String → List String
  | [] => []
  | file :: files =>
      if sample && decide (draws i ≥ 5) then filesFrom (i + 1) files
      else if !d.isNonZeroFile file then filesFrom (i + 1) files
      else file :: filesFrom (i + 1) files

/-- `get_files`: the names of the files it yields. -/
def getFiles : List String := d.filesFrom sample draws 0 d.glob

/-- The loop over the scores of the pool; `none` is an index that is out of range. -/
def pairScores (scors : List α) : ℕ → List String → (Finmap fun _ : String => α) →
    Option (Finmap fun _ : String => α)
  | _, [], scores => some scores
  | i, file :: files, scores =>
      match scors[i]? with
      | none => none
      | some score => pairScores scors (i + 1) files (scores.insert file score)

/-- The condition `os.getenv('MP_ENABLE', False)`: an empty value counts as none. -/
def mpEnabled (mpEnable : Option String) : Bool := mpEnable.any fun value => !value.isEmpty

/-- `get_adv_score` on a machine with `cpuCount` CPUs, with the value of `MP_ENABLE`; `none` is an
    exception. -/
def getAdvScore (cpuCount : ℕ) (mpEnable : Option String) : Option (Finmap fun _ : String => α) :=
  if mpEnabled mpEnable then do
    -- one CPU is left to the parent
    let scors ← poolMap ((cpuCount : ℤ) - 1) parseFile d.glob
    pairScores scors 0 (d.getFiles sample draws) ∅
  else
    some ((d.getFiles sample draws).foldl
      (fun scores file => scores.insert file (parseFile file)) ∅)

/-- `get_files` leaves the file out at its place in `glob`: by the draw, or because it is empty or
    not a regular file. -/
def Dropped (x : String × ℕ) : Prop :=
  (sample && decide (draws x.2 ≥ 5)) = true ∨ d.isNonZeroFile x.1 = false

/-- The dictionary has exactly the names that `get_files` yields, each with its score. -/
def ScoredRight (cpuCount : ℕ) (mpEnable : Option String) : Prop :=
  ∃ scores, d.getAdvScore sample draws parseFile cpuCount mpEnable = some scores ∧
    (∀ file, file ∈ scores ↔ file ∈ d.getFiles sample draws) ∧
    ∀ file ∈ d.getFiles sample draws, scores.lookup file = some (parseFile file)

/-! ### The files -/

theorem filesFrom_sublist (i : ℕ) (files : List String) :
    (d.filesFrom sample draws i files).Sublist files := by
  induction files generalizing i with
  | nil => exact List.Sublist.refl _
  | cons file files ih =>
    unfold filesFrom
    split
    · exact (ih (i + 1)).cons file
    · split
      · exact (ih (i + 1)).cons file
      · exact (ih (i + 1)).cons_cons file

/-- The files are among those of `glob`, in its order. -/
theorem getFiles_sublist : (d.getFiles sample draws).Sublist d.glob :=
  d.filesFrom_sublist sample draws 0 d.glob

theorem getFiles_nodup : (d.getFiles sample draws).Nodup :=
  d.nodup.sublist (d.getFiles_sublist sample draws)

variable {d sample draws} in
theorem filesFrom_cons_of_dropped {i : ℕ} {file : String} (files : List String)
    (h : d.Dropped sample draws (file, i)) :
    d.filesFrom sample draws i (file :: files) = d.filesFrom sample draws (i + 1) files := by
  conv_lhs => unfold filesFrom
  rcases h with h | h
  · rw [if_pos h]
  · rw [h, Bool.not_false, if_pos rfl, ite_self]

variable {d sample draws} in
theorem filesFrom_cons_of_not_dropped {i : ℕ} {file : String} (files : List String)
    (h : ¬ d.Dropped sample draws (file, i)) :
    d.filesFrom sample draws i (file :: files)
      = file :: d.filesFrom sample draws (i + 1) files := by
  conv_lhs => unfold filesFrom
  unfold Dropped at h
  rw [not_or, Bool.not_eq_false] at h
  rw [if_neg h.1, h.2, Bool.not_true, if_neg Bool.false_ne_true]

/-- There is no file left if all are dropped. -/
theorem filesFrom_eq_nil_iff (i : ℕ) (files : List String) :
    d.filesFrom sample draws i files = [] ↔ ∀ x ∈ files.zipIdx i, d.Dropped sample draws x := by
  induction files generalizing i with
  | nil => simp [filesFrom]
  | cons file files ih =>
    rw [List.zipIdx_cons, List.forall_mem_cons]
    by_cases h : d.Dropped sample draws (file, i)
    · rw [filesFrom_cons_of_dropped files h, ih (i + 1), and_iff_right h]
    · rw [filesFrom_cons_of_not_dropped files h]
      exact iff_of_false (List.cons_ne_nil _ _) fun hall => h hall.1

/-- The files are the first ones if none that is dropped comes before one that is not. -/
theorem filesFrom_prefix_iff (i : ℕ) {files : List String} (hnodup : files.Nodup) :
    d.filesFrom sample draws i files <+: files ↔
      (files.zipIdx i).Pairwise fun x y => d.Dropped sample draws x → d.Dropped sample draws y := by
  induction files generalizing i with
  | nil => simp [filesFrom]
  | cons file files ih =>
    rw [List.nodup_cons] at hnodup
    rw [List.zipIdx_cons, List.pairwise_cons]
    by_cases h : d.Dropped sample draws (file, i)
    · -- the first file is dropped, and no other file has its name
      have hnil : d.filesFrom sample draws (i + 1) files <+: file :: files ↔
          d.filesFrom sample draws (i + 1) files = [] := by
        rw [List.prefix_cons_iff]
        refine or_iff_left ?_
        rintro ⟨rest, hrest, -⟩
        have hfile : file ∈ d.filesFrom sample draws (i + 1) files := by
          rw [hrest]
          exact List.mem_cons_self
        exact hnodup.1 ((d.filesFrom_sublist sample draws (i + 1) files).mem hfile)
      rw [filesFrom_cons_of_dropped files h, hnil, filesFrom_eq_nil_iff]
      constructor
      · intro hall
        exact ⟨fun y hy _ => hall y hy,
          List.pairwise_of_forall_mem_list fun _ _ y hy _ => hall y hy⟩
      · intro hall y hy
        exact hall.1 y hy h
    · rw [filesFrom_cons_of_not_dropped files h, List.cons_prefix_cons, ih (i + 1) hnodup.2]
      exact and_congr_left fun _ => ⟨fun _ y _ hfile => absurd hfile h, fun _ => rfl⟩

theorem getFiles_prefix_iff : d.getFiles sample draws <+: d.glob ↔
    d.glob.zipIdx.Pairwise fun x y => d.Dropped sample draws x → d.Dropped sample draws y :=
  d.filesFrom_prefix_iff sample draws 0 d.nodup

/-! ### The two paths -/

variable {cpuCount : ℕ} {mpEnable : Option String}

/-- One file after the other, each is filled in with its score. -/
theorem getAdvScore_of_not_enabled (h : mpEnabled mpEnable = false) :
    d.getAdvScore sample draws parseFile cpuCount mpEnable
      = some (fill ((d.getFiles sample draws).map fun file => (file, parseFile file))) := by
  unfold getAdvScore fill fillFrom
  rw [h, if_neg Bool.false_ne_true, List.foldl_map]

/-- The scores are paired with the files place by place. -/
theorem pairScores_eq (scors : List α) (i : ℕ) (files : List String)
    (scores : Finmap fun _ : String => α) (h : i + files.length ≤ scors.length) :
    pairScores scors i files scores = some (fillFrom scores (files.zip (scors.drop i))) := by
  induction files generalizing i scores with
  | nil => rfl
  | cons file files ih =>
    rw [List.length_cons] at h
    have hi : i < scors.length := by omega
    unfold pairScores
    rw [List.getElem?_eq_getElem hi]
    dsimp only
    rw [ih (i + 1) _ (by omega), List.drop_eq_getElem_cons hi]
    rfl

/-- With the pool, each file is filled in with the score of the file at its place in `glob`. -/
theorem getAdvScore_of_enabled (h : mpEnabled mpEnable = true) (hcpus : 2 ≤ cpuCount) :
    d.getAdvScore sample draws parseFile cpuCount mpEnable
      = some (fill ((d.getFiles sample draws).zip (d.glob.map parseFile))) := by
  have hlen := (d.getFiles_sublist sample draws).length_le
  have hpool : poolMap ((cpuCount : ℤ) - 1) parseFile d.glob = some (d.glob.map parseFile) :=
    if_neg (by omega)
  unfold getAdvScore fill
  rw [h, if_pos rfl, hpool]
  simp only [Option.bind_eq_bind, Option.bind_some]
  rw [pairScores_eq _ _ _ _ (by rw [List.length_map]; omega), List.drop_zero]

/-- On a single CPU no process is left for the pool. -/
theorem getAdvScore_eq_none (h : mpEnabled mpEnable = true) (hcpus : ¬ 2 ≤ cpuCount) :
    d.getAdvScore sample draws parseFile cpuCount mpEnable = none := by
  have hpool : poolMap ((cpuCount : ℤ) - 1) parseFile d.glob = none := if_pos (by omega)
  unfold getAdvScore
  rw [h, if_pos rfl, hpool]
  rfl

/-- One file after the other, all is right. -/
theorem scoredRight_of_not_enabled (h : mpEnabled mpEnable = false) :
    d.ScoredRight sample draws parseFile cpuCount mpEnable := by
  have hkeys : ((d.getFiles sample draws).map fun file => (file, parseFile file)).map Prod.fst
      = d.getFiles sample draws := by
    rw [List.map_map]
    exact List.map_id _
  have hnodup := d.getFiles_nodup sample draws
  refine ⟨_, d.getAdvScore_of_not_enabled sample draws parseFile h, ?_, ?_⟩
  · intro file
    rw [mem_fill (by rwa [hkeys]), hkeys]
  · intro file hfile
    exact lookup_fill_of_mem (by rwa [hkeys]) (List.mem_map.mpr ⟨file, hfile, rfl⟩)

/-- With the pool, all is right if there is a process in it and the files at the same places have
    the same scores. -/
theorem scoredRight_of_enabled_iff (h : mpEnabled mpEnable = true) :
    d.ScoredRight sample draws parseFile cpuCount mpEnable ↔ 2 ≤ cpuCount ∧
      ∀ x ∈ (d.getFiles sample draws).zip d.glob, parseFile x.1 = parseFile x.2 := by
  have hlen := (d.getFiles_sublist sample draws).length_le
  have hkeys : ((d.getFiles sample draws).zip (d.glob.map parseFile)).map Prod.fst
      = d.getFiles sample draws := List.map_fst_zip (by rwa [List.length_map])
  have hnodup : (((d.getFiles sample draws).zip (d.glob.map parseFile)).map Prod.fst).Nodup := by
    rw [hkeys]
    exact d.getFiles_nodup sample draws
  have hpair : ∀ x ∈ (d.getFiles sample draws).zip d.glob,
      (fill ((d.getFiles sample draws).zip (d.glob.map parseFile))).lookup x.1
        = some (parseFile x.2) := by
    intro x hx
    apply lookup_fill_of_mem hnodup
    rw [List.zip_map_right]
    exact List.mem_map.mpr ⟨x, hx, rfl⟩
  constructor
  · rintro ⟨scores, hscores, -, hright⟩
    have hcpus : 2 ≤ cpuCount := by
      by_contra hsingle
      rw [d.getAdvScore_eq_none sample draws parseFile h hsingle] at hscores
      cases hscores
    refine ⟨hcpus, ?_⟩
    intro x hx
    rw [d.getAdvScore_of_enabled _ _ _ h hcpus] at hscores
    obtain rfl := Option.some.inj hscores
    have hfile : x.1 ∈ d.getFiles sample draws := (List.of_mem_zip hx).1
    exact Option.some.inj ((hright x.1 hfile).symm.trans (hpair x hx))
  · rintro ⟨hcpus, hsame⟩
    refine ⟨_, d.getAdvScore_of_enabled sample draws parseFile h hcpus, ?_, ?_⟩
    · intro file
      rw [mem_fill hnodup, hkeys]
    · intro file hfile
      -- each file has a place in `glob`
      have hplace : file ∈ ((d.getFiles sample draws).zip d.glob).map Prod.fst := by
        rwa [List.map_fst_zip hlen]
      obtain ⟨x, hx, rfl⟩ := List.mem_map.mp hplace
      rw [hpair x hx, hsame x hx]

/-- If each file of `get_files` is at its own place of `glob`, the pool makes the dictionary that is
    made one file after the other. -/
theorem getAdvScore_eq_of_places (hplace : ∀ x ∈ (d.getFiles sample draws).zip d.glob, x.1 = x.2)
    (h : mpEnabled mpEnable = true) (hcpus : 2 ≤ cpuCount) :
    d.getAdvScore sample draws parseFile cpuCount mpEnable
      = some (fill ((d.getFiles sample draws).map fun file => (file, parseFile file))) := by
  have hlen := (d.getFiles_sublist sample draws).length_le
  have hpairs : (d.getFiles sample draws).zip (d.glob.map parseFile)
      = (d.getFiles sample draws).map fun file => (file, parseFile file) := by
    calc (d.getFiles sample draws).zip (d.glob.map parseFile)
        = ((d.getFiles sample draws).zip d.glob).map fun x => (x.1, parseFile x.2) := by
          rw [List.zip_map_right]
          rfl
      _ = ((d.getFiles sample draws).zip d.glob).map fun x => (x.1, parseFile x.1) := by
          apply List.map_congr_left
          intro x hx
          rw [hplace x hx]
      _ = (((d.getFiles sample draws).zip d.glob).map Prod.fst).map
            fun file => (file, parseFile file) := by
          rw [List.map_map]
          rfl
      _ = (d.getFiles sample draws).map fun file => (file, parseFile file) := by
          rw [List.map_fst_zip hlen]
  rw [d.getAdvScore_of_enabled sample draws parseFile h hcpus, hpairs]

end Directory

/-- **The scores.**  For every `parse_file`, the dictionary has exactly the files of `get_files`,
    each with its score, and is the one that is made without `MP_ENABLE`, if and only if `MP_ENABLE`
    is not set, or there are two CPUs at least and no file that is dropped comes before one that is
    not. -/
theorem scores_right_iff [Nontrivial α] (d : Directory) (sample : Bool) (draws : ℕ → ℕ)
    (cpuCount : ℕ) (mpEnable : Option String) :
    (∀ parseFile : String → α, d.ScoredRight sample draws parseFile cpuCount mpEnable ∧
        d.getAdvScore sample draws parseFile cpuCount mpEnable
          = d.getAdvScore sample draws parseFile cpuCount none) ↔
      (Directory.mpEnabled mpEnable = true → 2 ≤ cpuCount ∧
        d.glob.zipIdx.Pairwise fun x y =>
          d.Dropped sample draws x → d.Dropped sample draws y) := by
  have hlen := (d.getFiles_sublist sample draws).length_le
  have hunset : Directory.mpEnabled none = false := rfl
  rw [← d.getFiles_prefix_iff, prefix_iff_zip hlen]
  cases h : Directory.mpEnabled mpEnable with
  | false =>
    -- without the pool there is nothing to get wrong
    refine iff_of_true ?_ fun hset => absurd hset Bool.false_ne_true
    intro parseFile
    refine ⟨d.scoredRight_of_not_enabled sample draws parseFile h, ?_⟩
    rw [d.getAdvScore_of_not_enabled sample draws parseFile h,
      d.getAdvScore_of_not_enabled sample draws parseFile hunset]
  | true =>
    constructor
    · intro hright _
      obtain ⟨a, b, hab⟩ := exists_pair_ne α
      have hcpus := ((d.scoredRight_of_enabled_iff sample draws _ h).mp (hright fun _ => a).1).1
      refine ⟨hcpus, ?_⟩
      intro x hx
      -- a `parse_file` that tells the two files apart
      by_contra hne
      have hsame := ((d.scoredRight_of_enabled_iff sample draws
        (fun file => if file = x.1 then a else b) h).mp (hright _).1).2 x hx
      rw [if_pos rfl, if_neg (Ne.symm hne)] at hsame
      exact hab hsame
    · intro hplaces parseFile
      obtain ⟨hcpus, hplace⟩ := hplaces rfl
      constructor
      · exact (d.scoredRight_of_enabled_iff sample draws parseFile h).mpr
          ⟨hcpus, fun x hx => congrArg parseFile (hplace x hx)⟩
      · rw [d.getAdvScore_eq_of_places sample draws parseFile hplace h hcpus,
          d.getAdvScore_of_not_enabled sample draws parseFile hunset]

/-- Three files, of which one is empty. -/
def oneEmpty (emptyFile : String) : Directory where
  glob := ["client_times_0", "client_times_1", "client_times_2"]
  nodup := by decide
  isfile _ := true
  getsize file := if file = emptyFile then 0 else 100

/-- The second file is empty, and the third one is left out by its draw; a pool of one process. -/
theorem scores_right_first_kept :
    (oneEmpty "client_times_1").ScoredRight true (4 * ·) String.length 2 (some "1") ∧
      (oneEmpty "client_times_1").getAdvScore true (4 * ·) String.length 2 (some "1")
        = (oneEmpty "client_times_1").getAdvScore true (4 * ·) String.length 2 none := by
  have hdropped : (oneEmpty "client_times_1").glob.zipIdx.Pairwise fun x y =>
      (oneEmpty "client_times_1").Dropped true (4 * ·) x →
        (oneEmpty "client_times_1").Dropped true (4 * ·) y := by
    unfold Directory.Dropped
    decide
  exact (scores_right_iff (oneEmpty "client_times_1") true (4 * ·) 2 (some "1")).mpr
    (fun _ => ⟨le_rfl, hdropped⟩) String.length

/-- The first file is empty: the pool gives its score to the second one. -/
theorem score_of_empty_file :
    (oneEmpty "client_times_0").getFiles false (fun _ => 0) = ["client_times_1", "client_times_2"] ∧
      ((oneEmpty "client_times_0").getAdvScore false (fun _ => 0) id 8 (some "1")).bind
        (·.lookup "client_times_1") = some "client_times_0" ∧
      ¬ (oneEmpty "client_times_0").ScoredRight false (fun _ => 0) id 8 (some "1") ∧
      (oneEmpty "client_times_0").getAdvScore false (fun _ => 0) id 8 (some "1")
        ≠ (oneEmpty "client_times_0").getAdvScore false (fun _ => 0) id 8 none := by
  have hscore : ((oneEmpty "client_times_0").getAdvScore false (fun _ => 0) id 8 (some "1")).bind
      (·.lookup "client_times_1") = some "client_times_0" := by decide
  have hwrong : ¬ (oneEmpty "client_times_0").ScoredRight false (fun _ => 0) id 8 (some "1") := by
    rintro ⟨scores, hscores, -, hright⟩
    rw [hscores] at hscore
    have hown : scores.lookup "client_times_1" = some "client_times_1" :=
      hright "client_times_1" (by decide)
    exact absurd (hown.symm.trans hscore) (by decide)
  refine ⟨by decide, hscore, hwrong, ?_⟩
  intro hsame
  apply hwrong
  have hright : (oneEmpty "client_times_0").ScoredRight false (fun _ => 0) id 8 none :=
    (oneEmpty "client_times_0").scoredRight_of_not_enabled false (fun _ => 0) id rfl
  unfold Directory.ScoredRight at hright ⊢
  rwa [hsame]

end NetworkExperiment
