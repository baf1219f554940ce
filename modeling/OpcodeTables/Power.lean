/-!
# Powers

Inside the library a power of natural numbers is that of the core library, also where another one is in view.
-/

namespace OpcodeTables

attribute [scoped instance (2000)] instPowNat

-- an exponent that is a numeral has no type yet when its instance is chosen
attribute [default_instance (20000)] instPowNat

end OpcodeTables
