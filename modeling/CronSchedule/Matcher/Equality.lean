import CronSchedule.Matcher.Basic

/-!
# Equality of matchers

Two matchers are equal when they are of one kind and hold the same values; unions are
equal when every member of each is equal to some member of the other, so neither the
order nor repetition of members counts.

* `Matcher.same` — the equality;
* `Matcher.number` — the numbers by which matchers are looked up, whatever `Hashing` gives
  them: of a union each member counts once;
* `Matcher.hash` — the numbers in use.
-/

namespace CronSchedule.Matcher

mutual

/-- Whether two matchers are equal. -/
def same : Matcher → Matcher → Bool
  | any, any => true
  | values s, values t => s.values == t.values
  | lastDay, lastDay => true
  | lastWeekday v, lastWeekday w => v == w
  | anyOf ms, anyOf ns => allAmong ms ns && ns.all fun n => someSame ms n
  | _, _ => false

/-- Whether every matcher of the first list is equal to one of the second. -/
def allAmong : List Matcher → List Matcher → Bool
  | [], _ => true
  | m :: ms, ns => ns.any (fun n => same m n) && allAmong ms ns

/-- Whether some matcher of the list is equal to `n`. -/
def someSame : List Matcher → Matcher → Bool
  | [], _ => false
  | m :: ms, n => same m n || someSame ms n

end

/-! ### Numbers for look-ups -/

/-- How matchers are given numbers.  The number of a union is taken of those of its members,
whose order makes no difference. -/
structure Hashing where
  any : UInt64
  values : ValueSet → UInt64
  lastDay : UInt64
  lastWeekday : Int → UInt64
  anyOf : List UInt64 → UInt64
  anyOf_perm : ∀ {xs ys : List UInt64}, xs.Perm ys → anyOf xs = anyOf ys

mutual

/-- The number of a matcher. -/
def number (h : Hashing) : Matcher → UInt64
  | any => h.any
  | values set => h.values set
  | lastDay => h.lastDay
  | lastWeekday weekday => h.lastWeekday weekday
  | anyOf members => h.anyOf (numbers h members)

/-- The numbers of the members of a list, equal ones counted once. -/
def numbers (h : Hashing) : List Matcher → List UInt64
  | [] => []
  | m :: ms => if someSame ms m then numbers h ms else number h m :: numbers h ms

end

/-- One number for a list of numbers. -/
def mix (seed : UInt64) (ns : List UInt64) : UInt64 := ns.foldl (fun h n => h * 1000003 + n) seed

/-- The number of an integer. -/
def mixInt (n : Int) : UInt64 := UInt64.ofNat (n % 18446744073709551616).toNat

/-- The numbers in use. -/
def Hashing.standard : Hashing where
  any := 1
  values set := mix 2 (set.values.map mixInt)
  lastDay := 3
  lastWeekday weekday := mix 4 [mixInt weekday]
  anyOf numbers := mix 5 [numbers.foldr (· + ·) 0]
  anyOf_perm h := by
    have hsum := h.foldr_eq' (f := (· + ·)) (fun x _ y _ z => by ac_rfl) 0
    rw [hsum]

/-- A number that equal matchers share. -/
def hash (m : Matcher) : UInt64 := number .standard m

end CronSchedule.Matcher
