namespace MetricSql

class Named (α : Type) where
  name : α → String
  all : List α

def ofName? {α : Type} [Named α] (s : String) : Option α := Named.all.find? (Named.name · == s)

end MetricSql
