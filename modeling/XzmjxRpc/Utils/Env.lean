import Mathlib.Logic.Function.Basic
import XzmjxRpc.Utils.Codec

/-!
# XzmjxRpc.Utils.Env

`Env::init` (`utils/env.cpp`): the command line.

An option is put into the map only when what follows it has been seen, so the
loop carries a key that is pending.  The arguments still to be spelled out are
then the pending option and the rest (`pending`), and each round takes a group
off them or moves on in one (`parses_parse`).
-/

namespace XzmjxRpc

/-- `Env`: the members that `init` sets. -/
structure Env where
  /-- `std::map`, from keys to values. -/
  mArgs : Bytes → Option Bytes
  mProgram : Bytes
  mExe : Bytes
  mCwd : Bytes

namespace Env

/-- `'-'`. -/
def dash : Byte := 45
/-- `'/'`. -/
def slash : Byte := 47

/-- `path.substr(0, path.find_last_of('/'))`. -/
def directory (path : Bytes) : Bytes :=
  if slash ∈ path then (path.reverse.dropWhile (· ≠ slash)).tail.reverse else path

/-- `addArg(key, val)`. -/
def addArg (e : Env) (key val : Bytes) : Env :=
  { e with mArgs := Function.update e.mArgs key (some val) }

/-- `if (now_key) addArg(now_key, "")`. -/
def flush (e : Env) : Option Bytes → Env
  | some nowKey => e.addArg nowKey []
  | none => e

/-- The loop in `init`, with `now_key` and the arguments left. -/
def parse (e : Env) (nowKey : Option Bytes) : List Bytes → Bool × Env
  | [] => (true, e.flush nowKey)
  | arg :: args =>
      if arg.head? = some dash then
        if 1 < arg.length then (e.flush nowKey).parse (some arg.tail) args
        else (false, e)
      else
        match nowKey with
        | some key => (e.addArg key arg).parse none args
        | none => (false, e)

/-- `init(argc, argv)`: `path` is what `/proc/<pid>/exe` links to, `program` is
`argv[0]`, `args` the arguments after it. -/
def init (e : Env) (path program : Bytes) (args : List Bytes) : Bool × Env :=
  { e with mExe := path, mCwd := directory path ++ [slash], mProgram := program }.parse none args

/-! ## groups -/

/-- The arguments are a sequence of groups, each an option `-k` with `k` not
empty, and what it is bound to: an argument after it that does not begin with
`-`, or `""`. -/
inductive Groups : List Bytes → List (Bytes × Bytes) → Prop where
  | nil : Groups [] []
  | flag {k : Bytes} {args : List Bytes} {bs : List (Bytes × Bytes)} :
      k ≠ [] → Groups args bs → Groups ((dash :: k) :: args) ((k, []) :: bs)
  | option {k v : Bytes} {args : List Bytes} {bs : List (Bytes × Bytes)} :
      k ≠ [] → v.head? ≠ some dash → Groups args bs →
        Groups ((dash :: k) :: v :: args) ((k, v) :: bs)

/-- Bind key after key, a later binding replacing an earlier one. -/
def bindAll (m : Bytes → Option Bytes) (bs : List (Bytes × Bytes)) : Bytes → Option Bytes :=
  bs.foldl (fun m b => Function.update m b.1 (some b.2)) m

/-- Only an option starts a group. -/
theorem Groups.exists_option {arg : Bytes} {args : List Bytes} {bs : List (Bytes × Bytes)}
    (h : Groups (arg :: args) bs) : ∃ k, k ≠ [] ∧ arg = dash :: k := by
  cases h with
  | flag hk _ => exact ⟨_, hk, rfl⟩
  | option hk _ _ => exact ⟨_, hk, rfl⟩

/-- An option that ends the arguments or stands before another one is a group. -/
theorem groups_flag_iff {k : Bytes} (hk : k ≠ []) {args : List Bytes}
    (hnext : ∀ v ∈ args.head?, v.head? = some dash) (bs : List (Bytes × Bytes)) :
    Groups ((dash :: k) :: args) bs ↔ ∃ bs', bs = (k, []) :: bs' ∧ Groups args bs' := by
  constructor
  · intro h
    cases h with
    | flag _ h => exact ⟨_, rfl, h⟩
    | option _ hv _ => exact absurd (hnext _ rfl) hv
  · rintro ⟨bs', rfl, h⟩
    exact Groups.flag hk h

/-- An option and its value are a group. -/
theorem groups_option_iff {k v : Bytes} (hk : k ≠ []) (hv : v.head? ≠ some dash)
    (args : List Bytes) (bs : List (Bytes × Bytes)) :
    Groups ((dash :: k) :: v :: args) bs ↔ ∃ bs', bs = (k, v) :: bs' ∧ Groups args bs' := by
  constructor
  · intro h
    cases h with
    | flag _ h =>
        obtain ⟨k', -, rfl⟩ := h.exists_option
        exact absurd rfl hv
    | option _ _ h => exact ⟨_, rfl, h⟩
  · rintro ⟨bs', rfl, h⟩
    exact Groups.option hk hv h

/-- `r` is what comes of the arguments `args` in `e`. -/
structure Parses (e : Env) (args : List Bytes) (r : Bool × Env) : Prop where
  accepts : r.1 = true ↔ ∃ bs, Groups args bs
  binds : ∀ bs, Groups args bs → r.2.mArgs = bindAll e.mArgs bs

namespace Parses

variable {e e' : Env} {k v : Bytes} {args args' : List Bytes} {r : Bool × Env}

theorem nil : Parses e [] (true, e) where
  accepts := by simpa using ⟨[], Groups.nil⟩
  binds bs h := by
    cases h
    rfl

theorem reject (h : ∀ bs, ¬ Groups args bs) : Parses e args (false, e') where
  accepts := by simpa using h
  binds bs hbs := absurd hbs (h bs)

/-- A group is bound before those after it. -/
theorem group (hgroup : ∀ bs, Groups args' bs ↔ ∃ bs', bs = (k, v) :: bs' ∧ Groups args bs')
    (h : Parses (e.addArg k v) args r) : Parses e args' r where
  accepts := by
    rw [h.accepts]
    constructor
    · rintro ⟨bs, hbs⟩
      exact ⟨_, (hgroup _).mpr ⟨bs, rfl, hbs⟩⟩
    · rintro ⟨bs, hbs⟩
      obtain ⟨bs', -, hbs'⟩ := (hgroup bs).mp hbs
      exact ⟨bs', hbs'⟩
  binds bs hbs := by
    obtain ⟨bs', rfl, hbs'⟩ := (hgroup bs).mp hbs
    exact h.binds bs' hbs'

end Parses

/-- The arguments that are not bound yet: the pending option, and the rest. -/
def pending (nowKey : Option Bytes) (args : List Bytes) : List Bytes :=
  (nowKey.map (dash :: ·)).toList ++ args

/-- **The loop**: with a key pending, what is to come of the option it is from
and the arguments left. -/
theorem parses_parse (e : Env) (nowKey : Option Bytes) (hkey : ∀ k ∈ nowKey, k ≠ [])
    (args : List Bytes) : Parses e (pending nowKey args) (e.parse nowKey args) := by
  induction args generalizing e nowKey with
  | nil =>
      cases nowKey with
      | none => exact Parses.nil
      | some key => exact Parses.nil.group (groups_flag_iff (hkey key rfl) (by simp))
  | cons arg args ih =>
      rw [parse.eq_def]
      show Parses _ _ (if _ then _ else _)
      by_cases hdash : arg.head? = some dash
      · rw [if_pos hdash]
        obtain ⟨k, rfl⟩ : ∃ k, arg = dash :: k := List.head?_eq_some_iff.mp hdash
        by_cases hk : k = []
        · subst hk
          rw [if_neg (by decide)]
          have hbare : ∀ bs, ¬ Groups ([dash] :: args) bs := by
            intro bs h
            obtain ⟨k, hk, heq⟩ := h.exists_option
            exact hk (List.cons.inj heq).2.symm
          apply Parses.reject
          intro bs h
          cases nowKey with
          | none => exact hbare bs h
          | some key =>
              cases h with
              | flag _ h => exact hbare _ h
              | option _ hv _ => exact hv rfl
        · have hlen : 1 < (dash :: k).length := by
            rw [List.length_cons]
            have := List.length_pos_iff.mpr hk
            omega
          rw [if_pos hlen]
          have hrest := ih (e.flush nowKey) (some k) fun key hkey => by
            cases hkey
            exact hk
          cases nowKey with
          | none => exact hrest
          | some key => exact hrest.group (groups_flag_iff (hkey key rfl) (by simp))
      · rw [if_neg hdash]
        cases nowKey with
        | none =>
            apply Parses.reject
            intro bs h
            obtain ⟨k, -, rfl⟩ := h.exists_option
            exact hdash rfl
        | some key =>
            have hrest := ih (e.addArg key arg) none (by simp)
            exact hrest.group (groups_option_iff (hkey key rfl) hdash args)

/-- **`init`** succeeds on groups and on nothing else, and binds them in order. -/
theorem init_groups_iff (e : Env) (path program : Bytes) (args : List Bytes) :
    ((e.init path program args).1 = true ↔ ∃ bs, Groups args bs) ∧
      ∀ bs, Groups args bs → (e.init path program args).2.mArgs = bindAll e.mArgs bs := by
  have h := parses_parse
    { e with mExe := path, mCwd := directory path ++ [slash], mProgram := program }
    none (by simp) args
  exact ⟨h.accepts, h.binds⟩

/-- `-c a -d -c b`, into a map that binds `d` already: the later `-c` counts. -/
theorem init_groups_twice :
    ∃ e : Env, e.mArgs [100] = some [49] ∧
      (e.init [47, 120] [120] [[45, 99], [97], [45, 100], [45, 99], [98]]).1 = true ∧
      (e.init [47, 120] [120] [[45, 99], [97], [45, 100], [45, 99], [98]]).2.mArgs =
        bindAll e.mArgs [([99], [97]), ([100], []), ([99], [98])] ∧
      bindAll e.mArgs [([99], [97]), ([100], []), ([99], [98])] [99] = some [98] := by
  have hgroups : Groups [[45, 99], [97], [45, 100], [45, 99], [98]]
      [([99], [97]), ([100], []), ([99], [98])] :=
    .option (by decide) (by decide) (.flag (by decide) (.option (by decide) (by decide) .nil))
  refine ⟨⟨fun key => if key = [100] then some [49] else none, [], [], []⟩, rfl, ?_, ?_, rfl⟩
  · exact (init_groups_iff _ _ _ _).1.mpr ⟨_, hgroups⟩
  · exact (init_groups_iff _ _ _ _).2 _ hgroups

end Env

end XzmjxRpc
