/-!
# Demonstration

A script that shows definitions, recursion, chains of assignments and comparisons.
-/

namespace Reckon.Demo

/-- The lines of the demonstration. -/
def lines : List String :=
  ["# Functions",
   "deffn sqr(x)=x*x",
   "deffn abs(x)=x>0?x:-x",
   "deffn fact(n)=n<=1?1:n*fact(n-1)",
   "deffn add(a,b)=a+b",
   "deffn three()=3",
   "sqr(5)",
   "Three = abs(-3)",
   "fact(3)",
   "fact(5)",
   "3 + add(Three - 1,Three + 1)",
   "three() * 9 + Three",
   "",
   "# Assignment",
   "Five = 2 + 3",
   "Five * -4",
   "Age = 2+3*Five",
   "A = 3 + (B = 2)",
   "A * B",
   "C = D = A",
   "E = F + (F = 1)",
   "E = (F = 1) + F",
   "",
   "# Relations",
   "A = B = 1",
   "A < B",
   "A > B",
   "A <= B",
   "A >= B",
   "A == B",
   "A != B",
   "PIE = A<B?A-B:B-A",
   ":vars"]

end Reckon.Demo
